import EverDb.Btree.Lookup
import EverDb.Foundation.BPlus.InsertSpec

/-!
# btree_set

`btree_set` carries out the insertion of `BPlus.set` on the tree it is called on,
and reports `EDB_ERROR_BTREE_FULL` exactly when the route of the key is full.
-/

namespace EverDb

open Foundation BPlus

variable {ρ : Type} {api : BlockApi (Db ρ)} {db : Db ρ} {h depth k value : Nat}

/-- Inserting between two parts of a list. -/
theorem insertIdx_between {α : Type} (front back : List α) (entry : α) :
    (front ++ back).insertIdx front.length entry = front ++ entry :: back := by
  induction front with
  | nil => rfl
  | cons head front ih => simp [ih]

section Images

variable {bt : Image} {front back : List (Nat × Nat)} {middle : Nat × Nat}

/-- Overwrite the data of an entry. -/
theorem NodeAt.setData (nodeAt : NodeAt bt h (front ++ middle :: back))
    (small : (front ++ middle :: back).length ≤ 510) (bounded : value < 4294967296) :
    NodeAt (Bt.setData bt front.length value) h (front ++ (middle.1, value) :: back) := by
  refine ⟨by rw [Bt.magic_setData, nodeAt.magic], ?_⟩
  have key : Bt.key bt front.length = middle.1 := congrArg Prod.fst nodeAt.entry
  rw [Bt.entries_setData (by rw [nodeAt.selfSize]; exact small) bounded, nodeAt.entries, key]
  simp

/-- Overwrite the key of an entry. -/
theorem NodeAt.setKey (nodeAt : NodeAt bt h (front ++ middle :: back))
    (small : (front ++ middle :: back).length ≤ 510) (bounded : k < 4294967296) :
    NodeAt (Bt.setKey bt front.length k) h (front ++ (k, middle.2) :: back) := by
  have size := nodeAt.selfSize
  have data : Bt.data bt front.length = middle.2 := congrArg Prod.snd nodeAt.entry
  refine ⟨by rw [Bt.magic_setKey, nodeAt.magic], ?_⟩
  rw [Bt.entries_setKey (by rw [size]; simp) (by rw [size]; exact small) bounded,
    nodeAt.entries, data]
  simp

/-- Insert an entry. -/
theorem NodeAt.listInsert (nodeAt : NodeAt bt h (front ++ back))
    (room : (front ++ back).length < 510)
    {k value : Nat} (keyBounded : k < 4294967296) (valueBounded : value < 4294967296) :
    NodeAt (EverDb.listInsert bt front.length k value) h (front ++ (k, value) :: back) := by
  have size := nodeAt.selfSize
  refine ⟨by rw [Bt.magic_listInsert, nodeAt.magic], ?_⟩
  rw [Bt.entries_listInsert (by rw [size]; exact room) (by rw [size]; simp) keyBounded valueBounded,
    nodeAt.entries, insertIdx_between]

/-- Cut a node short. -/
theorem NodeAt.take {row : List (Nat × Nat)} (nodeAt : NodeAt bt h row) (small : row.length ≤ 510)
    {split : Nat} (inside : split ≤ row.length) :
    NodeAt (Bt.setSelfSize bt split) h (row.take split) := by
  refine ⟨by rw [Bt.magic_setSelfSize, nodeAt.magic], ?_⟩
  rw [Bt.entries_setSelfSize (by rw [nodeAt.selfSize]; exact inside)
    (by rw [nodeAt.selfSize]; exact small), nodeAt.entries]

/-- The new node of a split: the magic number of the old one and its upper entries. -/
theorem NodeAt.drop {row : List (Nat × Nat)} (nodeAt : NodeAt bt h row) (small : row.length ≤ 510)
    {split : Nat} (inside : split ≤ row.length) :
    NodeAt (Bt.setSelfSize (moveEntries bt split (Bt.selfSize bt - split) split
      (Bt.setMagic btreeInitImage (Bt.magic bt))) (sub32 (Bt.selfSize bt) split)) h
      (row.drop split) := by
  have size := nodeAt.selfSize
  have count : sub32 (Bt.selfSize bt) split = row.length - split := by
    rw [size, sub32_of_le inside (by omega)]
  constructor
  · have magic : Bt.magic bt < 4294967296 := Image.word_lt _ _
    rw [Bt.magic_setSelfSize, Bt.magic_moveEntries, Bt.magic_setMagic magic, nodeAt.magic]
  · refine Bt.entries_eq ?_ fun i counted => ?_
    · rw [Bt.selfSize_setSelfSize (by rw [count]; omega), count, List.length_drop]
    · rw [List.length_drop] at counted
      have source : Bt.entry bt (i + split) = row[split + i] := by
        rw [← Bt.entries_getElem bt (i + split) (by rw [Bt.entries_length, size]; omega)]
        simp [nodeAt.entries, Nat.add_comm]
      rw [Bt.entry_setSelfSize, Bt.entry_moveEntries (Nat.le_refl _) (by omega) (by omega),
        if_pos (by omega), source, List.getElem_drop]

/-- The last key of a node image. -/
theorem NodeAt.lastKey {row : List (Nat × Nat)} (nodeAt : NodeAt bt h row) (filled : row ≠ [])
    (default : Nat) : Bt.lastKey bt = BPlus.lastKey default row := by
  rcases List.eq_nil_or_concat row with rfl | ⟨first, entry, rfl⟩
  · exact absurd rfl filled
  · rw [List.concat_eq_append] at nodeAt ⊢
    obtain ⟨place, here⟩ := nodeAt.last
    rw [Bt.lastKey, place, lastKey_append]
    exact congrArg Prod.fst here

end Images

/-- A call that changes one node in place. -/
theorem editNode_run (block : Nat) (change : Image → Image) (db : Db ρ) :
    editNode block change db = .ok () (db.write block (change (db.data block))) := rfl

/-- Exchanging a child for a block with its bytes, and recording the number in the parent. -/
theorem Trunk.openChild {held : Set Nat} {db middle : Db ρ} {h root separator result : Nat}
    {front back : List (Nat × Ref (h + 1))} {child : Placed h}
    (trunk : Trunk held db h root (front ++ [(separator, child)] ++ back))
    (nodeAt :
      NodeAt (db.data root) (h + 1) (Placed.rows (h + 1) (front ++ [(separator, child)] ++ back)))
    (small : (front ++ [(separator, child)] ++ back).length ≤ 510)
    (fresh : result = child.block ∨ result ∉ held) (bounded : result < 4294967296)
    (copied : middle.data result = db.data child.block)
    (same : ∀ other ∈ held, middle.data other = db.data other) :
    let later := insert result (held \ {child.block})
    let after := middle.write root (Bt.setData (middle.data root) front.length result)
    let changed := front ++ [(separator, (⟨result, child.entries⟩ : Placed h))] ++ back
    Trunk later middle h root changed ∧ Trunk later after h root changed ∧
      NodeAt (after.data root) (h + 1) (Placed.rows (h + 1) changed) ∧
      Confined held later db after (root :: Placed.kids h (front ++ [(separator, child)] ++ back))
        (root :: Placed.kids h changed) := by
  obtain ⟨moved, call⟩ := trunk.child.exchange fresh copied same
  obtain ⟨trunkMiddle, rootSame, confined⟩ := trunk.replaceChild separator call moved
  have length : (Placed.rows (h + 1) front).length = front.length := Placed.rows_length front
  refine ⟨trunkMiddle, trunkMiddle.write _, ?_,
    confined.trans (Confined.write List.mem_cons_self _)⟩
  rw [Db.write_data_self, rootSame]
  have shape : ∀ kid : Placed h, Placed.rows (h + 1) (front ++ [(separator, kid)] ++ back) =
      Placed.rows (h + 1) front ++ (separator, kid.block) :: Placed.rows (h + 1) back := by
    intro kid
    simp [Placed.rows, Ref.number]
  rw [shape] at nodeAt ⊢
  have written := nodeAt.setData (by rw [← shape, Placed.rows_length]; exact small) bounded
  rw [length] at written
  exact written

/-- Exchanging a child for the block `edb_modify_block` returns, and recording the number
in the parent. -/
theorem HolderContract.openChild {api : BlockApi (Db ρ)} (contract : HolderContract api)
    {held : Set Nat} {answers : List Int} {db : Db ρ} {h root separator : Nat}
    {front back : List (Nat × Ref (h + 1))} {child : Placed h}
    (valid : contract.Valid held (0 :: answers) db)
    (trunk : Trunk held db h root (front ++ [(separator, child)] ++ back))
    (nodeAt :
      NodeAt (db.data root) (h + 1) (Placed.rows (h + 1) (front ++ [(separator, child)] ++ back)))
    (small : (front ++ [(separator, child)] ++ back).length ≤ 510) :
    ∃ result middle later, api.modify child.block db = .ok result middle ∧
      let after := middle.write root (Bt.setData (middle.data root) front.length result)
      let changed := front ++ [(separator, (⟨result, child.entries⟩ : Placed h))] ++ back
      contract.Valid later answers after ∧ Trunk later after h root changed ∧
        NodeAt (after.data root) (h + 1) (Placed.rows (h + 1) changed) ∧
        Confined held later db after (root :: Placed.kids h (front ++ [(separator, child)] ++ back))
          (root :: Placed.kids h changed) := by
  obtain ⟨result, middle, ran, fresh, validMiddle, copied, same⟩ :=
    contract.modify valid (trunk.child.mine _ (Placed.block_mem child))
  have bounded := contract.bounded validMiddle result (Set.mem_insert _ _)
  obtain ⟨trunkMiddle, opened⟩ := trunk.openChild nodeAt small fresh bounded copied same
  exact ⟨result, middle, _, ran, contract.write validMiddle trunkMiddle.mine _, opened⟩

/-- The leaf case of `btree_set`. -/
theorem btreeSetLeaf_run {leaf : Placed 0} (nodeAt : NodeAt (db.data leaf.block) 0 leaf.entries)
    (ascending : leaf.entries.Pairwise fun left right => left.1 < right.1)
    (small : leaf.entries.length ≤ 510) (keyBounded : k < 4294967296)
    (valueBounded : value < 4294967296) :
    (pathFull 510 0 (leaf.entries : BPlus Nat Nat 0) k = true ∧
        btreeSetLeaf leaf.block k value db = .error edbErrorBtreeFull db) ∨
      pathFull 510 0 (leaf.entries : BPlus Nat Nat 0) k = false ∧ ∃ image,
        btreeSetLeaf leaf.block k value db = .ok () (db.write leaf.block image) ∧
        NodeAt image 0 (set 510 127 0 (leaf.entries : BPlus Nat Nat 0) k value) := by
  obtain ⟨front, back, shape, skipped, reached⟩ := exists_split ascending k
  rw [shape] at nodeAt ascending small ⊢
  have place := nodeAt.listFind_split ascending skipped reached
  have size := nodeAt.selfSize
  have frontNe : ∀ other ∈ front, other.1 ≠ k :=
    fun other member => Nat.ne_of_lt (skipped other member)
  -- whether the first entry from the key on carries the key
  by_cases present : ∃ old rest, back = (k, old) :: rest
  · obtain ⟨old, rest, rfl⟩ := present
    have here := nodeAt.entry
    have above : ∀ other ∈ rest, k < other.1 := fun other member =>
      (List.pairwise_cons.mp (List.pairwise_append.mp ascending).2.1).1 other member
    refine .inr ⟨?_, Bt.setData (db.data leaf.block) front.length value, ?_, ?_⟩
    · simp [pathFull]
    · have key : Bt.key (db.data leaf.block) front.length = k := congrArg Prod.fst here
      change (Code.gets (fun db : Db ρ => db.data leaf.block) >>= _) db = _
      simp only [Code.gets_bind, place, size, key, List.length_append, List.length_cons, and_true]
      rw [if_pos (by omega)]
      exact editNode_run _ _ _
    · rw [set_present skipped above]
      exact nodeAt.setData small valueBounded
  · have above : ∀ other ∈ back, k < other.1 := by
      intro other member
      refine Nat.lt_of_le_of_ne (reached other member) fun same => present ?_
      cases back with
      | nil => cases member
      | cons entry rest =>
          refine ⟨entry.2, rest, ?_⟩
          have atMost : entry.1 ≤ other.1 := by
            rcases List.mem_cons.mp member with rfl | later
            · exact Nat.le_refl _
            · exact Nat.le_of_lt ((List.pairwise_cons.mp
                (List.pairwise_append.mp ascending).2.1).1 other later)
          have equal : k = entry.1 := Nat.le_antisymm (reached entry List.mem_cons_self) (by omega)
          rw [equal]
    have absent : ¬(front.length < Bt.selfSize (db.data leaf.block) ∧
        Bt.key (db.data leaf.block) front.length = k) := by
      rintro ⟨inside, same⟩
      cases back with
      | nil =>
          rw [size] at inside
          simp at inside
      | cons entry rest =>
          have key : Bt.key (db.data leaf.block) front.length = entry.1 :=
            congrArg Prod.fst nodeAt.entry
          exact absurd (above entry List.mem_cons_self) (by omega)
    have none : (front ++ back).any (fun entry => decide (entry.1 = k)) = false := by
      rw [List.any_eq_false]
      intro other member
      rcases List.mem_append.mp member with inFront | inBack
      · simpa using frontNe other inFront
      · simpa using Nat.ne_of_gt (above other inBack)
    by_cases full : (front ++ back).length < 510
    · refine .inr ⟨?_, EverDb.listInsert (db.data leaf.block) front.length k value, ?_, ?_⟩
      · simp only [pathFull, Bool.and_eq_false_iff, decide_eq_false_iff_not]
        exact .inl (Nat.ne_of_lt full)
      · change (Code.gets (fun db : Db ρ => db.data leaf.block) >>= _) db = _
        simp only [Code.gets_bind, place]
        rw [if_neg absent, if_pos (by rw [size]; exact full)]
        exact editNode_run _ _ _
      · rw [set_absent skipped above]
        exact nodeAt.listInsert full keyBounded valueBounded
    · refine .inl ⟨?_, ?_⟩
      · simp only [pathFull, none, Bool.not_false, Bool.and_true, decide_eq_true_eq]
        exact Nat.le_antisymm small (Nat.le_of_not_lt full)
      · change (Code.gets (fun db : Db ρ => db.data leaf.block) >>= _) db = _
        simp only [Code.gets_bind, place]
        rw [if_neg absent, if_neg (by rw [size]; exact full)]
        rfl

/-- Make room in a node for a new child. -/
theorem NodeAt.insertChild {front back : List (Nat × Nat)} {middle : Nat × Nat}
    {bt : Image} {child : Nat}
    (nodeAt : NodeAt bt h (front ++ middle :: back)) (room : (front ++ middle :: back).length < 510)
    (bounded : child < 4294967296) :
    NodeAt (Bt.setData (EverDb.listInsert bt (front.length + 1) 0 0) (front.length + 1) child) h
      (front ++ middle :: (0, child) :: back) := by
  have place : (front ++ [middle]).length = front.length + 1 := by simp
  have shape : front ++ middle :: back = (front ++ [middle]) ++ back := by simp
  rw [shape] at nodeAt room
  have zero : 0 < 4294967296 := by decide
  have inserted := nodeAt.listInsert room zero zero
  have small : ((front ++ [middle]) ++ (0, 0) :: back).length ≤ 510 := by
    simp only [List.length_append, List.length_cons, List.length_nil] at room ⊢
    omega
  have placed := inserted.setData small bounded
  rw [place] at placed
  simpa using placed

/-- The split of `btree_set`: a new block takes the upper entries of the child, and the
parent gets an entry for it. -/
theorem btreeSplit_run (b : Nat) (contract : HolderContract api) {held : Set Nat}
    {answers : List Int}
    (valid : contract.Valid held (0 :: answers) db) {root child0 : Nat} (rootHeld : root ∈ held)
    (childHeld : child0 ∈ held) (apart : child0 ≠ root) :
    ∃ child1 after, btreeSplit api root b child0 db = .ok child1 after ∧ child1 ∉ held ∧
      contract.Valid (insert child1 held) answers after ∧
      after.data root = Bt.setData (listInsert (db.data root) (b + 1) 0 0) (b + 1) child1 ∧
      after.data child0 = Bt.setSelfSize (db.data child0) 127 ∧
      after.data child1 = Bt.setSelfSize (moveEntries (db.data child0) 127
        (Bt.selfSize (db.data child0) - 127) 127
        (Bt.setMagic btreeInitImage (Bt.magic (db.data child0))))
        (sub32 (Bt.selfSize (db.data child0)) 127) ∧
      ∀ other ∈ held, other ≠ root → other ≠ child0 → after.data other = db.data other := by
  obtain ⟨child1, taken, ran, fresh, validTaken, same⟩ := contract.allocate
    (contract.write valid rootHeld (listInsert (db.data root) (b + 1) 0 0))
  have rootNe : root ≠ child1 := fun equal => fresh (equal ▸ rootHeld)
  have childNe : child0 ≠ child1 := fun equal => fresh (equal ▸ childHeld)
  have rootIn : root ∈ insert child1 held := Set.mem_insert_of_mem _ rootHeld
  have childIn : child0 ∈ insert child1 held := Set.mem_insert_of_mem _ childHeld
  have newIn : child1 ∈ insert child1 held := Set.mem_insert _ _
  have rootData := same root rootHeld
  have childData := same child0 childHeld
  rw [Db.write_data_self] at rootData
  rw [Db.write_data_of_ne apart] at childData
  -- the states after the writes that follow the allocation
  let w1 := taken.write child1 btreeInitImage
  let w2 := w1.write child1 (Bt.setMagic (w1.data child1) (Bt.magic (w1.data child0)))
  let w3 := w2.write root (Bt.setData (w2.data root) (b + 1) child1)
  let w4 :=
    w3.write child1 (moveEntries (w3.data child0) 127 (Bt.selfSize (w3.data child0) - 127) 127
    (w3.data child1))
  let w5 :=
    w4.write child1 (Bt.setSelfSize (w4.data child1) (sub32 (Bt.selfSize (w3.data child0)) 127))
  let w6 := w5.write child0 (Bt.setSelfSize (w5.data child0) 127)
  refine ⟨child1, w6, ?_, fresh, ?_, ?_, ?_, ?_, ?_⟩
  · unfold btreeSplit
    change (Code.update _ >>= fun _ => api.allocate >>= _) db = _
    rw [Code.update_bind, Code.bind_ok ran]
    rfl
  · exact contract.write (contract.write (contract.write (contract.write (contract.write
      (contract.write validTaken newIn _) newIn _) rootIn _) newIn _) newIn _) childIn _
  · simp [w6, w5, w4, w3, w2, w1, Db.write, rootNe, apart.symm, rootData]
  · simp [w6, w5, w4, w3, w2, w1, Db.write, childNe, apart, childData]
  · simp [w6, w5, w4, w3, w2, w1, Db.write, childNe, childNe.symm, rootNe.symm, apart, childData]
  · intro other member notRoot notChild
    have notNew : other ≠ child1 := fun equal => fresh (equal ▸ member)
    have kept := same other member
    rw [Db.write_data_of_ne notRoot] at kept
    simp [w6, w5, w4, w3, w2, w1, Db.write, notRoot, notChild, notNew, kept]

/-- The answers of calls that all succeed. -/
def zeros (count : Nat) : List Int := List.replicate count 0

/-- How many calls of the block functions an insertion makes at most. -/
def setCost : Nat → Nat
  | 0 => 0
  | h + 1 => 2 + 2 * setCost h

/-- After a call on the tree `node`: another tree stands in its place, held by the
holder, and the other blocks are as they were. -/
def Rewritten (contract : HolderContract api) (held : Set Nat) (calls : Nat) (db : Db ρ)
    (node : Placed h) (cost : Nat) (target : BPlus Nat Nat h) (after : Db ρ) : Prop :=
  ∃ later rest next, contract.Valid later (zeros rest) after ∧ calls ≤ rest + cost ∧
    Node.block next = node.block ∧ Placed.tree h next = target ∧ Placed.Held later after h next ∧
    Confined held later db after (Placed.blocks h node) (Placed.blocks h next)

/-- What `btree_set` does: it reports a full route and leaves the tree as it was, or it
carries out the insertion. -/
def SetSpec (contract : HolderContract api) (held : Set Nat) (calls : Nat) (db : Db ρ)
    (node : Placed h) (k value : Nat) (outcome : Outcome (Db ρ) Unit) : Prop :=
  (pathFull 510 h (Placed.tree h node) k = true ∧ ∃ after,
    outcome = .error edbErrorBtreeFull after ∧
      Rewritten contract held calls db node (setCost h) (Placed.tree h node) after) ∨
  (pathFull 510 h (Placed.tree h node) k = false ∧ ∃ after, outcome = .ok () after ∧
    Rewritten contract held calls db node (setCost h)
      (set 510 127 h (Placed.tree h node) k value) after)

/-- The words of a node with one entry singled out. -/
theorem Placed.rows_single (front back : List (Nat × Ref (h + 1))) (key : Nat) (child : Placed h) :
    rows (h + 1) (front ++ [(key, child)] ++ back) =
      rows (h + 1) front ++ (key, child.block) :: rows (h + 1) back := by
  simp [rows, Ref.number]

/-- The words of a node with two entries singled out. -/
theorem Placed.rows_pair (front back : List (Nat × Ref (h + 1))) (leftKey rightKey : Nat)
    (left right : Placed h) :
    rows (h + 1) (front ++ [(leftKey, left), (rightKey, right)] ++ back) =
      rows (h + 1) front ++ (leftKey, left.block) :: (rightKey, right.block) ::
        rows (h + 1) back := by
  simp [rows, Ref.number]

section Route

variable {front back : List (Nat × Ref (h + 1))} {separator : Nat} {child : Placed h}
  {node : Placed (h + 1)}

theorem Foundation.BPlus.Cut.trees (cut : Cut k node.entries front (separator, child) back) :
    Cut k (Placed.tree (h + 1) node) (Placed.trees h front) (separator, Placed.tree h child)
      (Placed.trees h back) := by
  refine ⟨?_, ?_, ?_⟩
  · rw [Placed.tree_succ, cut.shape]
    simp [Placed.trees]
  · intro other member
    obtain ⟨entry, inside, rfl⟩ := List.mem_map.mp member
    exact cut.skipped entry inside
  · refine cut.reached.imp id fun empty => ?_
    rw [empty]
    rfl

/-- The place at which `btree_set` follows a child. -/
theorem place_eq {bt : Image} (cut : Cut k node.entries front (separator, child) back)
    (nodeAt : NodeAt bt (h + 1) node.row)
    (ascending : node.row.Pairwise fun left right => left.1 < right.1) :
    (if listFind bt k = Bt.selfSize bt then listFind bt k - 1
      else listFind bt k) = front.length := by
  have row : node.row = Placed.rows (h + 1) front ++ (separator, child.block) ::
      Placed.rows (h + 1) back := by
    rw [Placed.row, cut.shape]
    simp [Placed.rows, Ref.number]
  have skipped : ∀ other ∈ Placed.rows (h + 1) front, other.1 < k := by
    intro other member
    obtain ⟨entry, inside, rfl⟩ := List.mem_map.mp member
    exact cut.skipped entry inside
  rw [row] at nodeAt ascending
  have size := nodeAt.selfSize
  by_cases reached : k ≤ separator
  · have found := nodeAt.listFind ascending skipped reached
    rw [found, if_neg, Placed.rows_length]
    rw [size]
    simp
  · have last := cut.reached.resolve_left reached
    subst last
    have found := nodeAt.listFind_end (k := k) ascending fun entry member => by
      rcases List.mem_append.mp member with inFront | here
      · exact skipped entry inFront
      · have equal : entry = (separator, child.block) := by simpa [Placed.rows] using here
        rw [equal]
        exact Nat.lt_of_not_le reached
    rw [if_pos found, found, size]
    simp [Placed.rows]

end Route

/-- The words of a node carry the keys of the tree. -/
theorem Placed.lastKey_row (child : Placed h) (default : Nat) :
    BPlus.lastKey default child.row = BPlus.lastKey default (Placed.tree h child) := by
  have keys : child.row.map Prod.fst = (Placed.tree h child).map Prod.fst := by
    cases h with
    | zero => rw [Placed.row_zero]; rfl
    | succ h => simp [Placed.row, Placed.rows, Placed.tree]
  have same : ∀ {α β : Type} (left : List (Nat × α)) (right : List (Nat × β)),
      left.map Prod.fst = right.map Prod.fst →
        BPlus.lastKey default left = BPlus.lastKey default right := by
    intro α β left right equal
    rw [BPlus.lastKey, BPlus.lastKey, ← List.getLast?_map, ← List.getLast?_map, equal]
  exact same _ _ keys

/-- The key a parent copies from a child. -/
theorem lastKey_child {bt : Image} {child : Placed h} (nodeAt : NodeAt bt h child.row)
    (filled : Placed.tree h child ≠ []) (default : Nat) :
    Bt.lastKey bt = BPlus.lastKey default (Placed.tree h child) := by
  have row : child.row ≠ [] := by
    rw [ne_eq, ← List.length_eq_zero_iff, Placed.row_length, ← Placed.tree_length,
      List.length_eq_zero_iff]
    exact filled
  rw [nodeAt.lastKey row default, Placed.lastKey_row]

/-- Recording a child's last key in the parent. -/
theorem NodeAt.labelChild {bt image : Image} {front back : List (Nat × Ref (h + 1))}
    {separator : Nat} {child : Placed h}
    (nodeAt : NodeAt bt (h + 1) (Placed.rows (h + 1) (front ++ [(separator, child)] ++ back)))
    (small : (front ++ [(separator, child)] ++ back).length ≤ 510)
    (childAt : NodeAt image h (Placed.row child))
    (filled : Placed.tree h child ≠ []) (default : Nat) :
    NodeAt (Bt.setKey bt front.length (Bt.lastKey image)) (h + 1)
      (Placed.rows (h + 1)
        (front ++ [(BPlus.lastKey default (Placed.tree h child), child)] ++ back)) := by
  have bounded : Bt.lastKey image < 4294967296 := Bt.key_lt _ _
  rw [← lastKey_child childAt filled default]
  rw [Placed.rows_single] at nodeAt ⊢
  have written := nodeAt.setKey (by
    rw [← Placed.rows_single, Placed.rows_length]
    exact small) bounded
  rw [Placed.rows_length] at written
  exact written

/-- A call on one child, seen from the parent. -/
theorem Trunk.callChild {held later : Set Nat} {after : Db ρ} {root key : Nat}
    {front back : List (Nat × Ref (h + 1))} {child changed : Placed h}
    (trunk : Trunk held db h root (front ++ [(key, child)] ++ back))
    (nodeAt : NodeAt (db.data root) (h + 1) (Placed.rows (h + 1) (front ++ [(key, child)] ++ back)))
    (call : Confined held later db after (Placed.blocks h child) (Placed.blocks h changed))
    (heldChild : Placed.Held later after h changed)
    (block : Node.block changed = Node.block child) :
    Trunk later after h root (front ++ [(key, changed)] ++ back) ∧
      NodeAt (after.data root) (h + 1) (Placed.rows (h + 1) (front ++ [(key, changed)] ++ back)) ∧
      Confined held later db after (root :: Placed.kids h (front ++ [(key, child)] ++ back))
        (root :: Placed.kids h (front ++ [(key, changed)] ++ back)) := by
  obtain ⟨replaced, same, confined⟩ := trunk.replaceChild key call heldChild
  refine ⟨replaced, ?_, confined⟩
  rw [same, Placed.rows_single, block, ← Placed.rows_single]
  exact nodeAt

/-- Two adjacent children get their last keys as separators. -/
theorem Trunk.labelPair {held : Set Nat} {root leftKey rightKey : Nat}
    {front back : List (Nat × Ref (h + 1))} {left right : Placed h}
    (trunk : Trunk held db h root (front ++ [(leftKey, left), (rightKey, right)] ++ back))
    (nodeAt : NodeAt (db.data root) (h + 1)
      (Placed.rows (h + 1) (front ++ [(leftKey, left), (rightKey, right)] ++ back)))
    (small : (front ++ [(leftKey, left), (rightKey, right)] ++ back).length ≤ 510)
    (leftFilled : Placed.tree h left ≠ [])
    (rightFilled : Placed.tree h right ≠ []) (default : Nat) :
    let first := db.write root
      (Bt.setKey (db.data root) front.length (Bt.lastKey (db.data left.block)))
    let last := first.write root
      (Bt.setKey (first.data root) (front.length + 1) (Bt.lastKey (first.data right.block)))
    let labels := front ++ [(BPlus.lastKey default (Placed.tree h left), left),
      (BPlus.lastKey default (Placed.tree h right), right)] ++ back
    Trunk held last h root labels ∧
      NodeAt (last.data root) (h + 1) (Placed.rows (h + 1) labels) := by
  have shape : ∀ (a b : Nat), front ++ [(a, left), (b, right)] ++ back =
      front ++ [(a, left)] ++ ((b, right) :: back) := by
    intro a b
    simp
  have shapeRight : ∀ (a b : Nat), front ++ [(a, left), (b, right)] ++ back =
      (front ++ [(a, left)]) ++ [(b, right)] ++ back := by
    intro a b
    simp
  have leftAt : NodeAt (db.data left.block) h (Placed.row left) := by
    have trunkLeft := trunk
    rw [shape] at trunkLeft
    exact trunkLeft.child.stored.root
  have rightHeld : Placed.Held held db h right := by
    have trunkRight := trunk
    rw [shapeRight] at trunkRight
    exact trunkRight.child
  have rightNe : right.block ≠ root := by
    intro equal
    apply trunk.apart
    rw [shapeRight, Placed.mem_kids_append, Placed.mem_kids_append, Placed.kids_single, ← equal]
    exact .inl (.inr (Placed.block_mem right))
  intro first last labels
  have firstAt : NodeAt (first.data root) (h + 1) (Placed.rows (h + 1)
      (front ++ [(BPlus.lastKey default (Placed.tree h left), left),
        (rightKey, right)] ++ back)) := by
    rw [shape] at nodeAt small ⊢
    rw [Db.write_data_self]
    exact nodeAt.labelChild small leftAt leftFilled default
  have rightAt : NodeAt (first.data right.block) h (Placed.row right) := by
    rw [Db.write_data_of_ne rightNe]
    exact rightHeld.stored.root
  refine ⟨((trunk.write _).write _).relabel (by simp [labels]), ?_⟩
  rw [shapeRight] at firstAt
  have lengths : (front ++ [(BPlus.lastKey default (Placed.tree h left), left)]).length =
      front.length + 1 := by simp
  have written := firstAt.labelChild (by simpa using small) rightAt rightFilled default
  rw [lengths] at written
  rw [Db.write_data_self]
  simpa [labels] using written

/-- The end of `btree_set` after a split. -/
theorem Trunk.finishPair (contract : HolderContract api) {held later : Set Nat}
    {calls rest cost : Nat} {after : Db ρ} {node : Placed (h + 1)} {leftKey rightKey : Nat}
    {front back : List (Nat × Ref (h + 1))} {left right : Placed h}
    (valid : contract.Valid later (zeros rest) after) (spent : calls ≤ rest + cost)
    (trunk : Trunk later after h node.block (front ++ [(leftKey, left), (rightKey, right)] ++ back))
    (nodeAt : NodeAt (after.data node.block) (h + 1)
      (Placed.rows (h + 1) (front ++ [(leftKey, left), (rightKey, right)] ++ back)))
    (small : (front ++ [(leftKey, left), (rightKey, right)] ++ back).length ≤ 510)
    (leftFilled : Placed.tree h left ≠ []) (rightFilled : Placed.tree h right ≠ [])
    (confined : Confined held later db after (Placed.blocks (h + 1) node)
      (node.block :: Placed.kids h (front ++ [(leftKey, left), (rightKey, right)] ++ back)))
    (default : Nat) :
    ∃ last, (do
        let b0 ← Code.gets fun db : Db ρ => db.data left.block
        editNode node.block fun bt => Bt.setKey bt front.length (Bt.lastKey b0)
        let b1 ← Code.gets fun db : Db ρ => db.data right.block
        editNode node.block fun bt => Bt.setKey bt (front.length + 1) (Bt.lastKey b1)
        : Code (Db ρ) Unit) after = .ok () last ∧
      Rewritten contract held calls db node cost
        (Placed.trees h front ++ labelled default (Placed.tree h left) ::
          labelled default (Placed.tree h right) :: Placed.trees h back) last := by
  obtain ⟨trunkLast, nodeAtLast⟩ := trunk.labelPair nodeAt small leftFilled rightFilled default
  have label : (front ++ [(BPlus.lastKey default (Placed.tree h left), left),
      (BPlus.lastKey default (Placed.tree h right), right)] ++ back).map Prod.snd =
      (front ++ [(leftKey, left), (rightKey, right)] ++ back).map Prod.snd := by simp
  refine ⟨_, rfl, later, rest,
    ⟨node.block, front ++ [(BPlus.lastKey default (Placed.tree h left), left),
      (BPlus.lastKey default (Placed.tree h right), right)] ++ back⟩,
    contract.write (contract.write valid trunk.mine _) trunk.mine _, spent, rfl, ?_,
    trunkLast.toHeld nodeAtLast, ?_⟩
  · simp [Placed.tree, Placed.trees, labelled]
  · change Confined held later db _ _ (node.block :: Placed.kids h (front ++ _ ++ back))
    rw [Placed.kids_relabel label]
    exact confined.trans ((Confined.write List.mem_cons_self _).trans
      (Confined.write List.mem_cons_self _))

/-- The lower part of a node that is cut. -/
def Placed.lower (child : Placed h) : Placed h := ⟨child.block, child.entries.take 127⟩

/-- The upper part of a node that is cut, in a new block. -/
def Placed.upper (child : Placed h) (block : Nat) : Placed h := ⟨block, child.entries.drop 127⟩

theorem Placed.tree_lower (child : Placed h) : tree h child.lower = (tree h child).take 127 :=
  tree_take child 127

theorem Placed.tree_upper (child : Placed h) (block : Nat) :
    tree h (child.upper block) = (tree h child).drop 127 :=
  tree_drop child block 127

/-- A node once the child at `separator` is cut in two, before the separators of the
halves are recorded. -/
structure Halved (contract : HolderContract api) (held : Set Nat) (answers : List Int)
    (db : Db ρ) (root : Nat)
    (front : List (Nat × Ref (h + 1))) (separator : Nat) (child : Placed h)
    (back : List (Nat × Ref (h + 1))) (child1 : Nat) (after : Db ρ) : Prop where
  fresh : child1 ∉ held
  valid : contract.Valid (insert child1 held) answers after
  trunk : Trunk (insert child1 held) after h root
    (front ++ [(separator, child.lower), (0, child.upper child1)] ++ back)
  nodeAt : NodeAt (after.data root) (h + 1)
    (Placed.rows (h + 1) (front ++ [(separator, child.lower), (0, child.upper child1)] ++ back))
  key : Bt.key (after.data root) front.length = separator
  lowData : Bt.data (after.data root) front.length = child.block
  highData : Bt.data (after.data root) (front.length + 1) = child1
  confined : Confined held (insert child1 held) db after
    (root :: Placed.kids h (front ++ [(separator, child)] ++ back))
    (root :: Placed.kids h (front ++ [(separator, child.lower), (0, child.upper child1)] ++ back))

/-- The split of a full child. -/
theorem btreeSplit_halves (contract : HolderContract api) {held : Set Nat} {answers : List Int}
    {root separator : Nat}
    {front back : List (Nat × Ref (h + 1))} {child : Placed h}
    (valid : contract.Valid held (0 :: answers) db)
    (trunk : Trunk held db h root (front ++ [(separator, child)] ++ back))
    (nodeAt :
      NodeAt (db.data root) (h + 1) (Placed.rows (h + 1) (front ++ [(separator, child)] ++ back)))
    (room : (front ++ [(separator, child)] ++ back).length < 510)
    (width : child.entries.length = 510) :
    ∃ child1 after, btreeSplit api root front.length child.block db = .ok child1 after ∧
      Halved contract held answers db root front separator child back child1 after := by
  have childHeld := trunk.child
  have rootApart : root ∉ Placed.blocks h child := by
    have outer := (Placed.not_mem_kids.mp trunk.apart).2.1
    rwa [Placed.kids_single] at outer
  have childMem := Placed.block_mem child
  have childNe : child.block ≠ root := fun equal => rootApart (equal ▸ childMem)
  obtain ⟨child1, after, ran, fresh, validAfter, rootAfter, low, high, same⟩ :=
    btreeSplit_run front.length contract valid trunk.mine (childHeld.mine _ childMem) childNe
  have childAt : NodeAt (db.data child.block) h (Placed.row child) := childHeld.stored.root
  have rowLength : (Placed.row child).length = 510 := by rw [Placed.row_length, width]
  have lowAt : NodeAt (after.data child.block) h (Placed.rows h (child.entries.take 127)) := by
    rw [low, Placed.rows, List.map_take]
    exact childAt.take (by omega) (by omega)
  have highAt : NodeAt (after.data child1) h (Placed.rows h (child.entries.drop 127)) := by
    rw [high, Placed.rows, List.map_drop]
    exact childAt.drop (by omega) (by omega)
  obtain ⟨halves, confined, members⟩ := childHeld.cut fresh rootApart lowAt highAt same separator 0
  rw [← Placed.kids_single separator child] at confined
  have trunkAfter := trunk.replace confined (Set.mem_insert_of_mem _ trunk.mine) (fun inside => by
    rcases members _ inside with rfl | old
    · exact fresh trunk.mine
    · exact rootApart old) halves
  have nodeAtAfter : NodeAt (after.data root) (h + 1)
      (Placed.rows (h + 1)
        (front ++ [(separator, child.lower), (0, child.upper child1)] ++ back)) := by
    have bounded := contract.bounded validAfter child1 (Set.mem_insert _ _)
    rw [Placed.rows_single] at nodeAt
    have inserted := nodeAt.insertChild (by
      rw [← Placed.rows_single, Placed.rows_length]
      exact room) bounded
    rw [Placed.rows_length] at inserted
    rw [rootAfter, Placed.rows_pair]
    exact inserted
  have first := nodeAtAfter
  rw [Placed.rows_pair] at first
  have second :
      NodeAt (after.data root) (h + 1) ((Placed.rows (h + 1) front ++ [(separator, child.block)]) ++
      (0, child1) :: Placed.rows (h + 1) back) := by simpa [Placed.lower, Placed.upper] using first
  have firstEntry := first.entry
  have secondEntry := second.entry
  rw [Placed.rows_length] at firstEntry
  rw [List.length_append, Placed.rows_length, List.length_singleton] at secondEntry
  exact ⟨child1, after, ran, fresh, validAfter, trunkAfter, nodeAtAfter,
    congrArg Prod.fst firstEntry,
    congrArg Prod.snd firstEntry, congrArg Prod.snd secondEntry, Trunk.confinedRoot confined⟩

theorem btreeSet_run (contract : HolderContract api) (keyBounded : k < 4294967296)
    (valueBounded : value < 4294967296) {held : Set Nat} {calls : Nat} {node : Placed h}
    (valid : contract.Valid held (zeros calls) db) (heldNode : Placed.Held held db h node)
    (bounded : Searchable h (Placed.tree h node))
    (small : Every (· ≤ 510) h (Placed.tree h node)) (filled : Filled h (Placed.tree h node))
    (deep : h < depth) (enough : setCost h ≤ calls) :
    SetSpec contract held calls db node k value (btreeSet api depth node.block k value db) := by
  induction h generalizing depth held calls db with
  | zero =>
      obtain ⟨depth, rfl⟩ := Nat.exists_eq_succ_of_ne_zero (Nat.ne_of_gt deep)
      have nodeAt : NodeAt (db.data node.block) 0 node.entries :=
        Placed.row_zero node ▸ heldNode.stored.root
      have run :
          btreeSet api (depth + 1) node.block k value db = btreeSetLeaf node.block k value db := by
        change (Code.gets (fun db : Db ρ => db.data node.block) >>= _) db = _
        simp only [Code.gets_bind, nodeAt.isBtree, nodeAt.magic, nodeMagic, Bool.not_true,
          Bool.false_eq_true, if_false, if_true]
      rw [run]
      rcases btreeSetLeaf_run nodeAt bounded small keyBounded valueBounded with
        ⟨full, ran⟩ | ⟨room, image, ran, changed⟩
      · exact .inl ⟨full, db, ran, held, calls, node, valid, by omega, rfl, rfl, heldNode,
          Confined.refl held db _⟩
      · refine .inr ⟨room, _, ran, held, calls,
          ⟨node.block, set 510 127 0 (node.entries : BPlus Nat Nat 0) k value⟩,
          contract.write valid (heldNode.mine _ (Placed.block_mem node)) image, by omega, rfl, rfl,
          ⟨?_, heldNode.distinct, heldNode.mine⟩, Confined.write (Placed.block_mem node) image⟩
        rw [Placed.Stored, Placed.row_zero, Db.write_data_self]
        exact changed
  | succ h ih =>
      obtain ⟨depth, rfl⟩ := Nat.exists_eq_succ_of_ne_zero
        (Nat.ne_of_gt (Nat.lt_of_le_of_lt (Nat.zero_le _) deep))
      obtain ⟨calls, rfl⟩ :=
        Nat.exists_eq_succ_of_ne_zero (n := calls) (by simp [setCost] at enough; omega)
      have nodeAt := heldNode.stored.root
      have ascending := Placed.row_ascending bounded
      have count : 0 < node.entries.length := by
        rw [← Placed.tree_length]
        exact filled.all.1
      obtain ⟨front, ⟨separator, child⟩, back, cut⟩ := Cut.exists (k := k) count
      have place := place_eq cut nodeAt ascending
      have other : edbMagicBtree ≠ edbMagicBtreeLeaf := by decide
      unfold btreeSet
      change SetSpec contract held _ db node k value
        ((Code.gets (fun db : Db ρ => db.data node.block) >>= _) db)
      simp only [Code.gets_bind, nodeAt.isBtree, nodeAt.magic, nodeMagic, Bool.not_true,
        Bool.false_eq_true, if_false, if_neg other, place]
      -- the root and its children; the child on the route is exchanged for a copy
      have trunk := Trunk.of_held heldNode
      have shape : node.entries = front ++ [(separator, child)] ++ back := by simp [cut.shape]
      have length : node.entries.length ≤ 510 := by
        rw [← Placed.tree_length]
        exact small.1
      rw [Placed.row, shape] at nodeAt
      rw [shape] at trunk length
      have split := Placed.rows_single front back separator child
      have frontLength : (Placed.rows (h + 1) front).length = front.length :=
        Placed.rows_length front
      have childBlock : Bt.data (db.data node.block) front.length = child.block := by
        rw [split] at nodeAt
        rw [← frontLength]
        exact congrArg Prod.snd nodeAt.entry
      rw [if_neg (by rw [nodeAt.selfSize]; simp), childBlock]
      obtain ⟨c0, db1, held2, ran1, valid2, trunk2, nodeAt2, confined2⟩ :=
        contract.openChild valid trunk nodeAt length
      rw [Code.bind_ok ran1, Code.bind_ok (editNode_run _ _ _)]
      have inner : Searchable h (Placed.tree h child) := (bounded.2 _ cut.trees.mem_child).2
      have childSmall : Every (· ≤ 510) h (Placed.tree h child) := small.2 _ cut.trees.mem_child
      have childFilled : Every (0 < ·) h (Placed.tree h child) := filled.all.2 _ cut.trees.mem_child
      have spec := ih valid2 trunk2.child (by rw [Placed.tree_moved]; exact inner)
        (by rw [Placed.tree_moved]; exact childSmall)
        (by rw [Placed.tree_moved]; exact childFilled.filled) (Nat.lt_of_succ_lt_succ deep)
        (by simp only [setCost] at enough; omega)
      rw [SetSpec, Placed.tree_moved] at spec
      rcases spec with
        ⟨full, db3, ran3, held3, calls3, child3, valid3, spent3, block3, tree3, child3Held, call3⟩ |
        ⟨room, db3, ran3, held3, calls3, child3, valid3, spent3, block3, tree3, child3Held, call3⟩
      · -- the child is full
        obtain ⟨trunk3, nodeAt3, confined3⟩ := trunk2.callChild nodeAt2 call3 child3Held block3
        have size3 : Bt.selfSize (db3.data node.block) = node.entries.length := by
          rw [nodeAt3.selfSize, Placed.rows_length, shape]
          simp
        have length' : node.entries.length ≤ 510 := by rw [shape]; exact length
        rw [Code.bind_ok (Code.attempt_error ran3), if_neg (by decide), if_pos rfl]
        simp only [Code.gets_bind, size3]
        by_cases room : node.entries.length = 510
        · -- no room for another child
          rw [if_neg (by rw [room]; exact Nat.lt_irrefl 510)]
          refine .inl ⟨?_, _, rfl, held3, calls3,
            ⟨node.block, front ++ [(separator, child3)] ++ back⟩, valid3, ?_, rfl, ?_,
            trunk3.toHeld nodeAt3, ?_⟩
          · rw [pathFull_succ cut.trees, full, Placed.tree_length, room]
            rfl
          · simp only [setCost] at enough ⊢
            omega
          · rw [Placed.tree_succ, Placed.tree_succ, shape, Placed.tree_split,
              Placed.tree_split, tree3]
          · rw [Placed.blocks_succ, Placed.blocks_succ, shape]
            exact confined2.trans confined3
        · have less : node.entries.length < 510 := by omega
          have less3 : (front ++ [(separator, child3)] ++ back).length < 510 := by
            rw [shape] at less
            simpa using less
          have block3 : Node.block child3 = c0 := block3
          have child3Full : pathFull 510 h (Placed.tree h child3) k = true := by
            rw [tree3]; exact full
          have width : child3.entries.length = 510 := by
            rw [← Placed.tree_length]
            exact pathFull_length child3Full
          rw [if_pos less]
          obtain ⟨calls3, rfl⟩ := Nat.exists_eq_succ_of_ne_zero (n := calls3) (by
            simp only [setCost] at enough
            omega)
          -- the two halves in the place of the child
          obtain ⟨child1, db4, ran4, halved⟩ :=
            btreeSplit_halves contract valid3 trunk3 nodeAt3 less3 width
          rw [block3] at ran4
          rw [Code.bind_ok ran4]
          simp only [Code.gets_bind]
          have valid4 := halved.valid
          have trunk4 := halved.trunk
          have nodeAt4 := halved.nodeAt
          rw [halved.key, halved.lowData, halved.highData]
          have lowSpec := Placed.tree_lower child3
          have highSpec := Placed.tree_upper child3 child1
          rw [tree3] at lowSpec highSpec
          have childWidth : (Placed.tree h child).length = 510 := pathFull_length full
          have lowWidth : ((Placed.tree h child).take 127).length = 127 := by
            rw [List.length_take, childWidth]
            rfl
          have highWidth : ((Placed.tree h child).drop 127).length = 383 := by
            rw [List.length_drop, childWidth]
          have lowSmall : Every (· ≤ 510) h ((Placed.tree h child).take 127) :=
            childSmall.of_entries (fun _ => List.mem_of_mem_take) (by omega)
          have highSmall : Every (· ≤ 510) h ((Placed.tree h child).drop 127) :=
            childSmall.of_entries (fun _ => List.mem_of_mem_drop) (by omega)
          have bounds : 0 < 127 ∧ 127 < 510 := by decide
          have lowFilled := take_filled bounds full childFilled
          have highFilled := drop_filled bounds full childFilled
          have leftShape : ∀ (a b : Nat) (x y : Placed h), front ++ [(a, x), (b, y)] ++ back =
              front ++ [(a, x)] ++ ((b, y) :: back) := by
            intro a b x y
            simp
          have rightShape : ∀ (a b : Nat) (x y : Placed h), front ++ [(a, x), (b, y)] ++ back =
              (front ++ [(a, x)]) ++ [(b, y)] ++ back := by
            intro a b x y
            simp
          have small4 : ∀ (a b : Nat) (x y : Placed h),
              (front ++ [(a, x), (b, y)] ++ back).length ≤ 510 := by
            intro a b x y
            simp only [List.length_append, List.length_cons, List.length_nil] at less3 ⊢
            omega
          have confinedSplit :
              Confined held (insert child1 held3) db db4 (Placed.blocks (h + 1) node)
              (node.block :: Placed.kids h (front ++
                [(separator, Placed.lower child3), (0, Placed.upper child3 child1)] ++ back)) := by
            rw [Placed.blocks_succ, shape]
            exact confined2.trans (confined3.trans halved.confined)
          have fullness : pathFull 510 (h + 1) (Placed.tree (h + 1) node) k = false :=
            not_pathFull_of_length (by rw [Placed.tree_length]; exact room)
          by_cases low : k ≤ separator
          · rw [if_pos low]
            rw [leftShape] at trunk4 nodeAt4
            have spec :=
              ih valid4 trunk4.child (by rw [lowSpec]; exact inner.sublist (List.take_sublist _ _))
              (by rw [lowSpec]; exact lowSmall) (by rw [lowSpec]; exact lowFilled.filled)
              (Nat.lt_of_succ_lt_succ deep) (by simp only [setCost] at enough; omega)
            rw [SetSpec, lowSpec] at spec
            rcases spec with ⟨impossible, _⟩ |
              ⟨_, db5, ran5, held5, calls5, child5, valid5, spent5, block5, tree5,
                child5Held, call5⟩
            · rw [not_pathFull_of_length (by omega)] at impossible
              cases impossible
            · obtain ⟨trunk5, nodeAt5, confined5⟩ :=
                trunk4.callChild nodeAt4 call5 child5Held block5
              rw [← leftShape] at trunk5 nodeAt5 confined5
              rw [← leftShape] at confined5
              have spent : calls.succ ≤ calls5 + setCost (h + 1) := by
                simp only [setCost]
                omega
              obtain ⟨last, ran, rewritten⟩ := Trunk.finishPair contract valid5 spent
                trunk5 nodeAt5 (small4 _ _ _ _)
                  (by rw [tree5]; exact set_ne_nil lowFilled.filled k value)
                (by rw [highSpec]; exact ne_nil highFilled)
                (confinedSplit.trans confined5) separator
              have ran5 : btreeSet api depth child3.block k value db4 = .ok () db5 := ran5
              have block5 : Node.block child5 = c0 := block5.trans block3
              rw [block5] at ran
              rw [Code.bind_ok ran5]
              refine .inr ⟨fullness, last, ran, ?_⟩
              rw [set_low cut.trees full low, ← tree5, ← highSpec]
              exact rewritten
          · rw [if_neg low]
            rw [rightShape] at trunk4 nodeAt4
            have spec := ih valid4 trunk4.child
              (by rw [highSpec]; exact inner.sublist (List.drop_sublist _ _))
              (by rw [highSpec]; exact highSmall) (by rw [highSpec]; exact highFilled.filled)
              (Nat.lt_of_succ_lt_succ deep) (by simp only [setCost] at enough; omega)
            rw [SetSpec, highSpec] at spec
            rcases spec with ⟨impossible, _⟩ |
              ⟨_, db5, ran5, held5, calls5, child5, valid5, spent5, block5, tree5,
                child5Held, call5⟩
            · rw [not_pathFull_of_length (by omega)] at impossible
              cases impossible
            · obtain ⟨trunk5, nodeAt5, confined5⟩ :=
                trunk4.callChild nodeAt4 call5 child5Held block5
              rw [← rightShape] at trunk5 nodeAt5 confined5
              rw [← rightShape] at confined5
              have spent : calls.succ ≤ calls5 + setCost (h + 1) := by
                simp only [setCost]
                omega
              obtain ⟨last, ran, rewritten⟩ := Trunk.finishPair contract valid5 spent
                trunk5 nodeAt5 (small4 _ _ _ _) (by rw [lowSpec]; exact ne_nil lowFilled)
                (by rw [tree5]; exact set_ne_nil highFilled.filled k value)
                (confinedSplit.trans confined5) separator
              have ran5 : btreeSet api depth child1 k value db4 = .ok () db5 := ran5
              have block5 : Node.block child5 = child1 := block5
              have lowBlock : (Placed.lower child3).block = c0 := block3
              rw [block5] at ran
              rw [lowBlock] at ran
              rw [Code.bind_ok ran5]
              refine .inr ⟨fullness, last, ran, ?_⟩
              rw [set_high cut.trees full low, ← tree5, ← lowSpec]
              exact rewritten
      · obtain ⟨trunk3, nodeAt3, confined3⟩ := trunk2.callChild nodeAt2 call3 child3Held block3
        have filled3 : Placed.tree h child3 ≠ [] := by
          rw [tree3]
          exact set_ne_nil childFilled.filled k value
        have length3 : (front ++ [(separator, child3)] ++ back).length ≤ 510 := by
          simpa using length
        have childAt3 : NodeAt (db3.data c0) h (Placed.row child3) := by
          have stored := child3Held.stored.root
          rw [block3] at stored
          exact stored
        have labelled3 := nodeAt3.labelChild length3 childAt3 filled3 separator
        have label :
            (front ++ [(BPlus.lastKey separator (Placed.tree h child3), child3)] ++ back).map
            Prod.snd = (front ++ [(separator, child3)] ++ back).map Prod.snd := by simp
        rw [Code.bind_ok (Code.attempt_ok ran3), if_pos rfl]
        refine .inr ⟨?_, _, rfl, held3, calls3,
          ⟨node.block, front ++ [(BPlus.lastKey separator (Placed.tree h child3), child3)] ++ back⟩,
          contract.write valid3 trunk3.mine _, ?_, rfl, ?_,
          ((trunk3.write _).relabel label).toHeld ?_, ?_⟩
        · rw [pathFull_succ cut.trees, room, Bool.and_false]
        · simp only [setCost] at enough ⊢
          omega
        · rw [set_inside cut.trees room, ← tree3]
          simp [Placed.tree, Placed.trees, labelled]
        · rw [Db.write_data_self]
          exact labelled3
        · rw [Placed.blocks_succ, Placed.blocks_succ, shape, Placed.kids_relabel label]
          exact confined2.trans (confined3.trans (Confined.write List.mem_cons_self _))

end EverDb
