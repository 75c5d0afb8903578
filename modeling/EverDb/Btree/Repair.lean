import EverDb.Btree.PopNode
import EverDb.Btree.Regroup

/-!
# Repairing a child

Stealing an entry from the child beside it, or joining the two: `btree_pop` leaves
the parent with the same entries below it, under their last keys.
-/

namespace EverDb

open Foundation BPlus

variable {ρ : Type} {api : BlockApi (Db ρ)} {db after : Db ρ} {h root : Nat}
  {held writable : Set Nat}
  {answers : List Int}

/-- The number of words in a node with two entries singled out. -/
theorem Placed.rows_two (front back : List (Nat × Ref (h + 1))) (left right : Nat × Ref (h + 1)) :
    Placed.rows (h + 1) (front ++ [left, right] ++ back) =
      Placed.rows (h + 1) front ++ (left.1, left.2.block) :: (right.1, right.2.block) ::
        Placed.rows (h + 1) back := Placed.rows_pair front back left.1 right.1 left.2 right.2

/-- Recording the last key of a child. -/
theorem labelChild_run {key : Nat} {front back : List (Nat × Ref (h + 1))} {child : Placed h}
    (trunk : Trunk held db h root (front ++ [(key, child)] ++ back))
    (nodeAt : NodeAt (db.data root) (h + 1) (Placed.rows (h + 1) (front ++ [(key, child)] ++ back)))
    (small : (front ++ [(key, child)] ++ back).length ≤ 510)
    (filled : child.entries ≠ []) (default : Nat) :
    ∃ image, labelChild root front.length child.block db = .ok () (db.write root image) ∧
      Trunk held (db.write root image) h root
        (front ++ [(BPlus.lastKey default (Placed.tree h child), child)] ++ back) ∧
      NodeAt image (h + 1)
        (Placed.rows (h + 1)
          (front ++ [(BPlus.lastKey default (Placed.tree h child), child)] ++ back)) := by
  have childAt := trunk.child.stored.root
  have size : Bt.selfSize (db.data child.block) ≠ 0 := by
    rw [childAt.selfSize, Placed.row_length]
    exact fun empty => filled (List.length_eq_zero_iff.mp empty)
  have treeFilled : Placed.tree h child ≠ [] := by
    rw [ne_eq, ← List.length_eq_zero_iff, Placed.tree_length, List.length_eq_zero_iff]
    exact filled
  refine ⟨_, ?_, (trunk.write _).relabel (by simp),
    nodeAt.labelChild small childAt treeFilled default⟩
  change (if Bt.selfSize (db.data child.block) = 0 then Code.diverge else _) db = _
  rw [if_neg size]
  exact editNode_run _ _ _

section Exchange

variable {front back : List (Nat × Ref (h + 1))} {lower upper : Nat × Ref (h + 1)}

/-- Two adjacent children divide their entries anew. -/
theorem Trunk.exchange (trunk : Trunk held db h root (front ++ [lower, upper] ++ back))
    (nodeAt : NodeAt (db.data root) (h + 1) (Placed.rows (h + 1) (front ++ [lower, upper] ++ back)))
    {low high : List (Nat × Ref h)} (divided : low ++ high = lower.2.entries ++ upper.2.entries)
    (lowAt : NodeAt (after.data lower.2.block) h (Placed.rows h low))
    (highAt : NodeAt (after.data upper.2.block) h (Placed.rows h high))
    (same : ∀ block, block ≠ lower.2.block → block ≠ upper.2.block →
      after.data block = db.data block) :
    Trunk held after h root
        (front ++ [(lower.1, ⟨lower.2.block, low⟩), (upper.1, ⟨upper.2.block, high⟩)] ++ back) ∧
      NodeAt (after.data root) (h + 1) (Placed.rows (h + 1)
        (front ++ [(lower.1, ⟨lower.2.block, low⟩), (upper.1, ⟨upper.2.block, high⟩)] ++ back)) ∧
      Confined held held db after (root :: Placed.kids h (front ++ [lower, upper] ++ back))
        (root :: Placed.kids h
          (front ++
            [(lower.1, ⟨lower.2.block, low⟩), (upper.1, ⟨upper.2.block, high⟩)] ++ back)) := by
  have outside := (Placed.not_mem_kids.mp trunk.apart).2.1
  have notLower : root ≠ lower.2.block := by
    rintro equal
    refine outside (Placed.mem_kids.mpr ⟨lower, by simp, ?_⟩)
    rw [equal]
    exact Placed.block_mem lower.2
  have notUpper : root ≠ upper.2.block := by
    rintro equal
    refine outside (Placed.mem_kids.mpr ⟨upper, by simp, ?_⟩)
    rw [equal]
    exact Placed.block_mem upper.2
  have content : Placed.content
      ([(lower.1, ⟨lower.2.block, low⟩), (upper.1, ⟨upper.2.block, high⟩)] :
        List (Nat × Ref (h + 1))) =
      Placed.content [lower, upper] := by
    simpa [Placed.content] using divided
  obtain ⟨trunkAfter, confined⟩ :=
    trunk.regroup content (List.Sublist.refl _) (fun other member => by
    rcases List.mem_cons.mp member with rfl | last
    · exact lowAt
    · rw [List.mem_singleton.mp last]
      exact highAt) (fun block _ _ outsideRoots => by
    rw [Placed.roots, List.map_cons, List.map_cons, List.mem_cons, not_or, List.mem_cons, not_or]
      at outsideRoots
    exact same block outsideRoots.1 outsideRoots.2.1) fun block member _ => member
  refine ⟨trunkAfter, ?_, confined⟩
  rw [same root notLower notUpper, Placed.rows_two, ← Placed.rows_two front back lower upper]
  exact nodeAt

/-- The entries of a node under its last key. -/
def Placed.labelled (default : Nat) (node : Placed h) : Nat × Ref (h + 1) :=
  (BPlus.lastKey default (Placed.tree h node), node)

/-- A call that divides the entries of two adjacent children anew, and labels them. -/
def Exchanges (contract : WritableContract api) (held writable : Set Nat)
    (answers : List Int) (db : Db ρ)
    (root : Nat) (front : List (Nat × Ref (h + 1))) (lower upper : Nat × Ref (h + 1))
    (back : List (Nat × Ref (h + 1))) (low high : List (Nat × Ref h))
    (call : Code (Db ρ) Unit) : Prop :=
  let next := front ++ [Placed.labelled lower.1 ⟨lower.2.block, low⟩,
    Placed.labelled upper.1 ⟨upper.2.block, high⟩] ++ back
  ∃ after, call db = .ok () after ∧ contract.Valid held writable answers after ∧
    Trunk held after h root next ∧ NodeAt (after.data root) (h + 1) (Placed.rows (h + 1) next) ∧
    Confined held held db after (root :: Placed.kids h (front ++ [lower, upper] ++ back))
      (root :: Placed.kids h next)

variable {contract : WritableContract api}

/-- Labels on both children, the upper one first. -/
theorem Exchanges.labels {low high : List (Nat × Ref h)} {middle : Db ρ}
    (valid : contract.Valid held writable answers middle)
    (trunk : Trunk held middle h root
      (front ++ [(lower.1, ⟨lower.2.block, low⟩), (upper.1, ⟨upper.2.block, high⟩)] ++ back))
    (nodeAt : NodeAt (middle.data root) (h + 1) (Placed.rows (h + 1)
      (front ++ [(lower.1, ⟨lower.2.block, low⟩), (upper.1, ⟨upper.2.block, high⟩)] ++ back)))
    (small : (front ++ [lower, upper] ++ back).length ≤ 510) (lowFilled : low ≠ [])
    (highFilled : high ≠ [])
    (confined :
      Confined held held db middle (root :: Placed.kids h (front ++ [lower, upper] ++ back))
      (root :: Placed.kids h
        (front ++ [(lower.1, ⟨lower.2.block, low⟩), (upper.1, ⟨upper.2.block, high⟩)] ++ back)))
    {call : Code (Db ρ) Unit}
    (ran : call db = (do labelChild root front.length lower.2.block
                         labelChild root (front.length + 1) upper.2.block :
                           Code (Db ρ) Unit) middle ∨
      call db = (do labelChild root (front.length + 1) upper.2.block
                    labelChild root front.length lower.2.block : Code (Db ρ) Unit) middle) :
    Exchanges contract held writable answers db root front lower upper back low high call := by
  have firstShape :
      ∀ a b : Nat × Ref (h + 1), front ++ [a, b] ++ back = front ++ [a] ++ (b :: back) := by
    intro a b
    simp
  have lastShape :
      ∀ a b : Nat × Ref (h + 1), front ++ [a, b] ++ back = (front ++ [a]) ++ [b] ++ back := by
    intro a b
    simp
  have count : ∀ a : Nat × Ref (h + 1), (front ++ [a]).length = front.length + 1 := by simp
  have small' : ∀ a b : Nat × Ref (h + 1), (front ++ [a, b] ++ back).length ≤ 510 := by
    intro a b
    simpa using small
  have same : Placed.kids h (front ++ [Placed.labelled lower.1 (⟨lower.2.block, low⟩ : Placed h),
      Placed.labelled upper.1 (⟨upper.2.block, high⟩ : Placed h)] ++ back) =
      Placed.kids h
        (front ++ [(lower.1, ⟨lower.2.block, low⟩), (upper.1, ⟨upper.2.block, high⟩)] ++ back) :=
    Placed.kids_relabel (by simp [Placed.labelled])
  have written :
      ∀ first last : Image, Confined held held db ((middle.write root first).write root last)
      (root :: Placed.kids h (front ++ [lower, upper] ++ back))
      (root :: Placed.kids h (front ++ [Placed.labelled lower.1 (⟨lower.2.block, low⟩ : Placed h),
        Placed.labelled upper.1 (⟨upper.2.block, high⟩ : Placed h)] ++ back)) := by
    intro first last
    rw [same]
    exact confined.trans
      ((Confined.write List.mem_cons_self _).trans (Confined.write List.mem_cons_self _))
  have validLast : ∀ first last : Image,
      contract.Valid held writable answers ((middle.write root first).write root last) := by
    intro first last
    exact contract.write (contract.write valid trunk.mine first) trunk.mine last
  rcases ran with ran | ran
  · rw [firstShape] at trunk nodeAt
    obtain ⟨image, ran1, trunk1, nodeAt1⟩ :=
      labelChild_run trunk nodeAt (by rw [← firstShape]; exact small' _ _)
      lowFilled lower.1
    rw [← firstShape, lastShape] at trunk1 nodeAt1
    obtain ⟨last, ran2, trunk2, nodeAt2⟩ := labelChild_run trunk1 (by rwa [Db.write_data_self])
      (by rw [← lastShape]; exact small' _ _) highFilled upper.1
    rw [← lastShape] at trunk2 nodeAt2
    rw [count] at ran2
    refine ⟨_, ?_, validLast image last, trunk2, by rwa [Db.write_data_self], written image last⟩
    rw [ran, Code.bind_ok ran1, ran2]
  · rw [lastShape] at trunk nodeAt
    obtain ⟨image, ran1, trunk1, nodeAt1⟩ :=
      labelChild_run trunk nodeAt (by rw [← lastShape]; exact small' _ _)
      highFilled upper.1
    rw [← lastShape, firstShape] at trunk1 nodeAt1
    obtain ⟨last, ran2, trunk2, nodeAt2⟩ := labelChild_run trunk1 (by rwa [Db.write_data_self])
      (by rw [← firstShape]; exact small' _ _) lowFilled lower.1
    rw [← firstShape] at trunk2 nodeAt2
    rw [count] at ran1
    refine ⟨_, ?_, validLast image last, trunk2, by rwa [Db.write_data_self], written image last⟩
    rw [ran, Code.bind_ok ran1, ran2]

/-- Adjacent children lie in different blocks. -/
theorem Trunk.blocks_ne (trunk : Trunk held db h root (front ++ [lower, upper] ++ back)) :
    lower.2.block ≠ upper.2.block := by
  have window := (Grove.append.mp (Grove.append.mp trunk.grove).1).2.1
  have shape : [lower, upper] = [lower] ++ [upper] := rfl
  rw [shape] at window
  intro equal
  refine (Grove.append.mp window).2.2 lower.2.block (Placed.mem_kids.mpr ⟨lower, by simp, ?_⟩)
    (Placed.mem_kids.mpr ⟨upper, by simp, ?_⟩)
  · exact Placed.block_mem lower.2
  · rw [equal]
    exact Placed.block_mem upper.2

/-- The lower and the upper one of two adjacent children. -/
theorem Trunk.window (trunk : Trunk held db h root (front ++ [lower, upper] ++ back)) :
    Placed.Held held db h lower.2 ∧ Placed.Held held db h upper.2 := by
  have shape : front ++ [lower, upper] ++ back = front ++ [lower] ++ (upper :: back) := by simp
  have shapeUpper : front ++ [lower, upper] ++ back = (front ++ [lower]) ++ [upper] ++ back := by
    simp
  have other := trunk
  rw [shape] at trunk
  rw [shapeUpper] at other
  exact ⟨trunk.child, other.child⟩

/-- The lower child takes the first entry of the upper one. -/
theorem btreeSteal_next (valid : contract.Valid held writable answers db)
    (trunk : Trunk held db h root (front ++ [lower, upper] ++ back))
    (nodeAt : NodeAt (db.data root) (h + 1) (Placed.rows (h + 1) (front ++ [lower, upper] ++ back)))
    (small : (front ++ [lower, upper] ++ back).length ≤ 510) (room : lower.2.entries.length < 510)
    (most : upper.2.entries.length ≤ 510) (lends : 1 < upper.2.entries.length) :
    Exchanges contract held writable answers db root front lower upper back
      ((lower.2.entries ++ upper.2.entries).take (lower.2.entries.length + 1))
      ((lower.2.entries ++ upper.2.entries).drop (lower.2.entries.length + 1))
      (btreeSteal root front.length (front.length + 1) lower.2.block upper.2.block) := by
  obtain ⟨lowerHeld, upperHeld⟩ := trunk.window
  have lowerAt := lowerHeld.stored.root
  have upperAt := upperHeld.stored.root
  have apart := trunk.blocks_ne
  obtain ⟨entry, rest, shape⟩ := List.exists_cons_of_length_pos (Nat.zero_lt_of_lt lends)
  have restFilled : rest ≠ [] := by
    rintro rfl
    rw [shape, List.length_singleton] at lends
    exact Nat.lt_irrefl 1 lends
  have lowShape : (lower.2.entries ++ upper.2.entries).take (lower.2.entries.length + 1) =
      lower.2.entries ++ [entry] := by
    rw [shape, List.take_append, Nat.add_sub_cancel_left, List.take_of_length_le (Nat.le_succ _)]
    rfl
  have highShape :
      (lower.2.entries ++ upper.2.entries).drop (lower.2.entries.length + 1) = rest := by
    rw [shape]
    simp [List.drop_append]
  have upperRow : Placed.row upper.2 = (entry.1, Ref.number h entry.2) :: Placed.rows h rest := by
    rw [Placed.row, shape]
    rfl
  rw [lowShape, highShape]
  -- the two writes
  let first :=
    db.write lower.2.block (listInsert (db.data lower.2.block) (Bt.selfSize (db.data lower.2.block))
    (Bt.key (db.data upper.2.block) 0) (Bt.data (db.data upper.2.block) 0))
  let last := first.write upper.2.block (listRemove (first.data upper.2.block) 0)
  have upperSame : first.data upper.2.block = db.data upper.2.block :=
    Db.write_data_of_ne apart.symm
  have lowAt : NodeAt (last.data lower.2.block) h (Placed.rows h (lower.2.entries ++ [entry])) := by
    rw [Db.write_data_of_ne apart, Db.write_data_self]
    have keyAt : (Bt.key (db.data upper.2.block) 0, Bt.data (db.data upper.2.block) 0) =
        (entry.1, Ref.number h entry.2) := by
      rw [upperRow] at upperAt
      exact upperAt.first
    have lowerNil : NodeAt (db.data lower.2.block) h (Placed.row lower.2 ++ []) := by
      rwa [List.append_nil]
    have inserted := lowerNil.listInsert (by simpa using room) (Bt.key_lt (db.data upper.2.block) 0)
      (Bt.data_lt (db.data upper.2.block) 0)
    rw [lowerAt.selfSize]
    rw [keyAt] at inserted
    rw [Placed.rows_append]
    exact inserted
  have highAt : NodeAt (last.data upper.2.block) h (Placed.rows h rest) := by
    rw [Db.write_data_self, upperSame]
    rw [upperRow] at upperAt
    have split : NodeAt (db.data upper.2.block) h
        ([] ++ (entry.1, Ref.number h entry.2) :: Placed.rows h rest) :=
      upperAt
    refine split.listRemove ?_
    rw [List.nil_append, ← upperRow, Placed.row_length]
    exact most
  obtain ⟨trunkLast, nodeAtLast, confined⟩ :=
    trunk.exchange nodeAt (by rw [shape]; simp) lowAt highAt
    fun block notLower notUpper => by
      rw [Db.write_data_of_ne notUpper, Db.write_data_of_ne notLower]
  have lowerMine := lowerHeld.mine _ (Placed.block_mem lower.2)
  have upperMine := upperHeld.mine _ (Placed.block_mem upper.2)
  refine Exchanges.labels (contract.write (contract.write valid lowerMine _) upperMine _)
    trunkLast nodeAtLast
    small (by simp) restFilled confined (.inl ?_)
  change (if edbBtreeSize ≤ Bt.selfSize (db.data lower.2.block) then Code.diverge else _) db = _
  rw [if_neg (by rw [lowerAt.selfSize, Placed.row_length]; exact Nat.not_le_of_lt room)]
  change (if front.length + 1 < front.length then _ else _ : Code (Db ρ) Unit) db = _
  rw [if_neg (by omega)]
  rfl

/-- The upper child takes the last entry of the lower one. -/
theorem btreeSteal_previous (valid : contract.Valid held writable answers db)
    (trunk : Trunk held db h root (front ++ [lower, upper] ++ back))
    (nodeAt : NodeAt (db.data root) (h + 1) (Placed.rows (h + 1) (front ++ [lower, upper] ++ back)))
    (small : (front ++ [lower, upper] ++ back).length ≤ 510) (room : upper.2.entries.length < 510)
    (most : lower.2.entries.length ≤ 510) (lends : 1 < lower.2.entries.length) :
    Exchanges contract held writable answers db root front lower upper back
      ((lower.2.entries ++ upper.2.entries).take (lower.2.entries.length - 1))
      ((lower.2.entries ++ upper.2.entries).drop (lower.2.entries.length - 1))
      (btreeSteal root (front.length + 1) front.length upper.2.block lower.2.block) := by
  obtain ⟨lowerHeld, upperHeld⟩ := trunk.window
  have lowerAt := lowerHeld.stored.root
  have upperAt := upperHeld.stored.root
  have apart := trunk.blocks_ne
  obtain ⟨before, entry, shape⟩ :=
    (List.eq_nil_or_concat lower.2.entries).resolve_left fun empty => by
    rw [empty] at lends
    cases lends
  rw [List.concat_eq_append] at shape
  have beforeFilled : before ≠ [] := by
    rintro rfl
    rw [shape] at lends
    exact Nat.lt_irrefl 1 lends
  have count : lower.2.entries.length - 1 = before.length := by
    rw [shape]
    simp
  have lowShape :
      (lower.2.entries ++ upper.2.entries).take (lower.2.entries.length - 1) = before := by
    rw [count, shape, List.append_assoc, List.take_left]
  have highShape : (lower.2.entries ++ upper.2.entries).drop (lower.2.entries.length - 1) =
      entry :: upper.2.entries := by
    rw [count, shape, List.append_assoc, List.drop_left]
    rfl
  have lowerRow :
      Placed.row lower.2 = Placed.rows h before ++ [(entry.1, Ref.number h entry.2)] := by
    rw [Placed.row, shape, Placed.rows_append]
    rfl
  have place : Bt.selfSize (db.data lower.2.block) - 1 = (Placed.rows h before).length := by
    rw [lowerAt.selfSize, lowerRow]
    simp
  rw [lowShape, highShape]
  -- the two writes
  let first := db.write upper.2.block (listInsert (db.data upper.2.block) 0
    (Bt.key (db.data lower.2.block) (Bt.selfSize (db.data lower.2.block) - 1))
    (Bt.data (db.data lower.2.block) (Bt.selfSize (db.data lower.2.block) - 1)))
  let last := first.write lower.2.block
    (listRemove (first.data lower.2.block) (Bt.selfSize (first.data lower.2.block) - 1))
  have lowerSame : first.data lower.2.block = db.data lower.2.block := Db.write_data_of_ne apart
  have highAt : NodeAt (last.data upper.2.block) h (Placed.rows h (entry :: upper.2.entries)) := by
    rw [Db.write_data_of_ne apart.symm, Db.write_data_self]
    have keyAt : (Bt.key (db.data lower.2.block) (Bt.selfSize (db.data lower.2.block) - 1),
        Bt.data (db.data lower.2.block) (Bt.selfSize (db.data lower.2.block) - 1)) =
        (entry.1, Ref.number h entry.2) := by
      rw [place]
      rw [lowerRow] at lowerAt
      exact lowerAt.last.2
    have upperNil : NodeAt (db.data upper.2.block) h ([] ++ Placed.row upper.2) := upperAt
    have inserted := upperNil.listInsert (by simpa using room)
      (Bt.key_lt (db.data lower.2.block) (Bt.selfSize (db.data lower.2.block) - 1))
      (Bt.data_lt (db.data lower.2.block) (Bt.selfSize (db.data lower.2.block) - 1))
    rw [keyAt] at inserted
    exact inserted
  have lowAt : NodeAt (last.data lower.2.block) h (Placed.rows h before) := by
    rw [Db.write_data_self, lowerSame, place]
    rw [lowerRow] at lowerAt
    have removed := lowerAt.listRemove (by rw [← lowerRow, Placed.row_length]; exact most)
    rwa [List.append_nil] at removed
  obtain ⟨trunkLast, nodeAtLast, confined⟩ :=
    trunk.exchange nodeAt (by rw [shape]; simp) lowAt highAt
    fun block notLower notUpper => by
      rw [Db.write_data_of_ne notLower, Db.write_data_of_ne notUpper]
  have lowerMine := lowerHeld.mine _ (Placed.block_mem lower.2)
  have upperMine := upperHeld.mine _ (Placed.block_mem upper.2)
  refine Exchanges.labels (contract.write (contract.write valid upperMine _) lowerMine _)
    trunkLast nodeAtLast
    small beforeFilled (by simp) confined (.inr ?_)
  change (if edbBtreeSize ≤ Bt.selfSize (db.data upper.2.block) then Code.diverge else _) db = _
  rw [if_neg (by rw [upperAt.selfSize, Placed.row_length]; exact Nat.not_le_of_lt room)]
  change (if front.length < front.length + 1 then _ else _ : Code (Db ρ) Unit) db = _
  rw [if_pos (Nat.lt_succ_self _)]
  rfl

/-- The lower one of two adjacent children with the entries of both. -/
def joinedImage (db : Db ρ) (lower upper : Nat) : Image :=
  Bt.setSelfSize (joinEntries (db.data upper) (Bt.selfSize (db.data upper)) 0 (db.data lower))
    (Bt.selfSize (db.data lower) + Bt.selfSize (db.data upper))

/-- The part of a merge that follows the joining of the entries. -/
theorem btreeMerge_start {first lowerBlock upperBlock : Nat}
    (fits : Bt.selfSize (db.data lowerBlock) + Bt.selfSize (db.data upperBlock) ≤ 510) :
    btreeMerge api root first lowerBlock upperBlock db =
      (do api.free upperBlock
          editNode root fun bt => listRemove bt (first + 1)
          labelChild root first lowerBlock : Code (Db ρ) Unit)
        (db.write lowerBlock (joinedImage db lowerBlock upperBlock)) := by
  change (if edbBtreeSize < Bt.selfSize (db.data lowerBlock) + Bt.selfSize (db.data upperBlock) then
    Code.diverge else _) db = _
  rw [if_neg (Nat.not_lt_of_le fits)]
  have written : (db.write lowerBlock (joinEntries (db.data upperBlock)
      (Bt.selfSize (db.data upperBlock)) 0 (db.data lowerBlock))).write lowerBlock
        (Bt.setSelfSize ((db.write lowerBlock (joinEntries (db.data upperBlock)
          (Bt.selfSize (db.data upperBlock)) 0 (db.data lowerBlock))).data lowerBlock)
          (Bt.selfSize ((db.write lowerBlock (joinEntries (db.data upperBlock)
            (Bt.selfSize (db.data upperBlock)) 0 (db.data lowerBlock))).data lowerBlock) +
            Bt.selfSize (db.data upperBlock))) =
      db.write lowerBlock (joinedImage db lowerBlock upperBlock) := by
    rw [Db.write_write, Db.write_data_self, Bt.selfSize_joinEntries]
    rfl
  rw [← written]
  rfl

/-- Joining nodes that do not fit into one writes past its end. -/
theorem btreeMerge_overflow {first lowerBlock upperBlock : Nat}
    (wide : 510 < Bt.selfSize (db.data lowerBlock) + Bt.selfSize (db.data upperBlock)) :
    btreeMerge api root first lowerBlock upperBlock db = .stuck := by
  change (if edbBtreeSize < Bt.selfSize (db.data lowerBlock) + Bt.selfSize (db.data upperBlock) then
    Code.diverge else _) db = _
  rw [if_pos wide]
  rfl

/-- What joining two adjacent children makes of the lower one. -/
theorem Trunk.joinedAt (trunk : Trunk held db h root (front ++ [lower, upper] ++ back))
    (fits : lower.2.entries.length + upper.2.entries.length ≤ 510) :
    Bt.selfSize (db.data lower.2.block) + Bt.selfSize (db.data upper.2.block) =
        lower.2.entries.length + upper.2.entries.length ∧
      NodeAt (joinedImage db lower.2.block upper.2.block) h
        (Placed.rows h (lower.2.entries ++ upper.2.entries)) := by
  have lowerAt := trunk.window.1.stored.root
  have upperAt := trunk.window.2.stored.root
  refine ⟨by rw [lowerAt.selfSize, upperAt.selfSize, Placed.row_length, Placed.row_length], ?_⟩
  rw [Placed.rows_append]
  exact lowerAt.join upperAt (by rwa [Placed.row_length, Placed.rows_length])

/-- A merge whose last call is refused has joined the entries, and the parent still names
both children. -/
theorem btreeMerge_refused {code : Int} (valid : contract.Valid held writable (code :: answers) db)
    (nonzero : code ≠ 0) (trunk : Trunk held db h root (front ++ [lower, upper] ++ back))
    (fits : lower.2.entries.length + upper.2.entries.length ≤ 510) :
    ∃ after, btreeMerge api root front.length lower.2.block upper.2.block db = .error code after ∧
      NodeAt (after.data lower.2.block) h (Placed.rows h (lower.2.entries ++ upper.2.entries)) ∧
      ∀ other ∈ held, other ≠ lower.2.block → after.data other = db.data other := by
  obtain ⟨count, joinedAt⟩ := trunk.joinedAt fits
  have lowerMine := trunk.window.1.mine _ (Placed.block_mem lower.2)
  have upperMine := trunk.window.2.mine _ (Placed.block_mem upper.2)
  obtain ⟨after, ran, same⟩ := contract.free_refused
    (contract.write valid lowerMine (joinedImage db lower.2.block upper.2.block)) nonzero upperMine
  refine ⟨after, ?_, ?_, fun other member notLower => ?_⟩
  · rw [btreeMerge_start (by omega), Code.bind_error ran]
  · rw [same _ lowerMine, Db.write_data_self]
    exact joinedAt
  · rw [same other member, Db.write_data_of_ne notLower]

/-- The lower one of two adjacent children takes all entries of the upper one. -/
theorem btreeMerge_run (valid : contract.Valid held writable (0 :: answers) db)
    (trunk : Trunk held db h root (front ++ [lower, upper] ++ back))
    (nodeAt : NodeAt (db.data root) (h + 1) (Placed.rows (h + 1) (front ++ [lower, upper] ++ back)))
    (small : (front ++ [lower, upper] ++ back).length ≤ 510)
    (fits : lower.2.entries.length + upper.2.entries.length ≤ 510) :
    let next := front ++
      [Placed.labelled lower.1 ⟨lower.2.block, lower.2.entries ++ upper.2.entries⟩] ++ back
    (lower.2.entries ++ upper.2.entries = [] ∧
      btreeMerge api root front.length lower.2.block upper.2.block db = .stuck) ∨
    lower.2.entries ++ upper.2.entries ≠ [] ∧ ∃ after,
      btreeMerge api root front.length lower.2.block upper.2.block db = .ok () after ∧
      contract.Valid (held \ {upper.2.block}) (writable \ {upper.2.block}) answers after ∧
      Trunk (held \ {upper.2.block}) after h root next ∧
      NodeAt (after.data root) (h + 1) (Placed.rows (h + 1) next) ∧
      Confined held (held \ {upper.2.block}) db after
        (root :: Placed.kids h (front ++ [lower, upper] ++ back)) (root :: Placed.kids h next) := by
  obtain ⟨count, joinedAt⟩ := trunk.joinedAt fits
  have lowerMine := trunk.window.1.mine _ (Placed.block_mem lower.2)
  have upperMine := trunk.window.2.mine _ (Placed.block_mem upper.2)
  have apart := trunk.blocks_ne
  have outside := (Placed.not_mem_kids.mp trunk.apart).2.1
  have notLower : root ≠ lower.2.block := fun equal =>
    outside (Placed.mem_kids.mpr ⟨lower, by simp, equal ▸ Placed.block_mem lower.2⟩)
  have notUpper : root ≠ upper.2.block := fun equal =>
    outside (Placed.mem_kids.mpr ⟨upper, by simp, equal ▸ Placed.block_mem upper.2⟩)
  let joined := db.write lower.2.block (joinedImage db lower.2.block upper.2.block)
  obtain ⟨freed, ran, validFreed, same⟩ := contract.free (contract.write valid lowerMine
    (joinedImage db lower.2.block upper.2.block)) upperMine
  have rootMine : root ∈ held \ {upper.2.block} := ⟨trunk.mine, notUpper⟩
  have rootSame : freed.data root = db.data root := by
    rw [same root trunk.mine notUpper, Db.write_data_of_ne notLower]
  let last := freed.write root (listRemove (freed.data root) (front.length + 1))
  -- the parent loses the entry of the upper child
  have content : Placed.content
      ([(lower.1, ⟨lower.2.block, lower.2.entries ++ upper.2.entries⟩)] :
        List (Nat × Ref (h + 1))) =
      Placed.content [lower, upper] := by
    simp [Placed.content]
  have fewer : (Placed.roots
      ([(lower.1, ⟨lower.2.block, lower.2.entries ++ upper.2.entries⟩)] :
        List (Nat × Ref (h + 1)))).Sublist
      (Placed.roots [lower, upper]) := by
    simp [Placed.roots]
  have lowerAt :
      NodeAt (last.data lower.2.block) h (Placed.rows h (lower.2.entries ++ upper.2.entries)) := by
    rw [Db.write_data_of_ne notLower.symm, same _ lowerMine apart, Db.write_data_self]
    exact joinedAt
  have kept : ∀ block ∈ held, block ≠ root → block ∉ Placed.roots [lower, upper] →
      last.data block = db.data block := by
    intro block member notRoot outsideRoots
    rw [Placed.roots, List.map_cons, List.map_cons, List.mem_cons, not_or, List.mem_cons, not_or]
      at outsideRoots
    rw [Db.write_data_of_ne notRoot, same block member outsideRoots.2.1,
      Db.write_data_of_ne outsideRoots.1]
  have stays : ∀ block ∈ held, block ∉ Placed.roots [lower, upper] ∨ block ∈ Placed.roots
      ([(lower.1, ⟨lower.2.block, lower.2.entries ++ upper.2.entries⟩)] :
        List (Nat × Ref (h + 1))) →
      block ∈ held \ {upper.2.block} := by
    refine fun block member place => ⟨member, fun equal => ?_⟩
    rw [Set.mem_singleton_iff] at equal
    subst equal
    rcases place with outsideRoots | inside
    · exact outsideRoots (by simp [Placed.roots])
    · have equal : upper.2.block = lower.2.block := by simpa [Placed.roots] using inside
      exact apart equal.symm
  obtain ⟨trunkLast, confined⟩ := trunk.regroup content fewer
    (fun other member => by rw [List.mem_singleton.mp member]; exact lowerAt) kept stays
  have lastAt : NodeAt (last.data root) (h + 1) (Placed.rows (h + 1)
      (front ++ [(lower.1, ⟨lower.2.block, lower.2.entries ++ upper.2.entries⟩)] ++ back)) := by
    rw [Db.write_data_self, rootSame]
    rw [Placed.rows_two] at nodeAt
    have shape :
        Placed.rows (h + 1) front ++ (lower.1, lower.2.block) :: (upper.1, upper.2.block) ::
        Placed.rows (h + 1) back = (Placed.rows (h + 1) front ++ [(lower.1, lower.2.block)]) ++
          (upper.1, upper.2.block) :: Placed.rows (h + 1) back := by simp
    rw [shape] at nodeAt
    have removed := nodeAt.listRemove (by
      rw [← shape, ← Placed.rows_two, Placed.rows_length]
      exact small)
    have place : (Placed.rows (h + 1) front ++ [(lower.1, lower.2.block)]).length =
        front.length + 1 := by simp
    rw [place] at removed
    rw [Placed.rows_single]
    simpa using removed
  have run : btreeMerge api root front.length lower.2.block upper.2.block db =
      labelChild root front.length lower.2.block last := by
    rw [btreeMerge_start (by omega), Code.bind_ok ran]
    rfl
  have validLast :
      contract.Valid (held \ {upper.2.block}) (writable \ {upper.2.block}) answers last :=
    contract.write validFreed rootMine _
  intro next
  by_cases empty : lower.2.entries ++ upper.2.entries = []
  · refine .inl ⟨empty, ?_⟩
    have size : Bt.selfSize (last.data lower.2.block) = 0 := by
      rw [lowerAt.selfSize, empty]
      rfl
    rw [run]
    change (if Bt.selfSize (last.data lower.2.block) = 0 then Code.diverge else _) last = _
    rw [if_pos size]
    rfl
  · obtain ⟨image, labelled, trunkEnd, endAt⟩ := labelChild_run trunkLast lastAt (by
      simp only [List.length_append, List.length_cons, List.length_nil] at small ⊢
      omega) empty lower.1
    refine .inr ⟨empty, _, run.trans labelled, contract.write validLast rootMine image,
      trunkEnd, ?_, ?_⟩
    · rw [Db.write_data_self]
      exact endAt
    · have kids : Placed.kids h next = Placed.kids h
          (front ++ [(lower.1, ⟨lower.2.block, lower.2.entries ++ upper.2.entries⟩)] ++ back) :=
        Placed.kids_relabel (by simp [next, Placed.labelled])
      rw [kids]
      exact confined.trans (Confined.write List.mem_cons_self image)

end Exchange

end EverDb
