import EverDb.Btree.Grow
import EverDb.Page.Refusal

/-!
# Insertions and refused blocks

`btree_set` makes room in the parent before it asks for the block of the new child, and
labels the children after it has repeated the insertion. A refusal in between leaves a
separator 0 behind another one. `btree_grow` stores the first block it is given in the
caller's root variable at once.
-/

namespace EverDb

open Foundation BPlus

variable {answer : List BlockEvent → Option Nat} {fresh : FreshAnswers answer} {own : Ownership}
  {db failed : Db (List BlockEvent)} {h depth root k value separator : Nat}

/-- The next `count` requests are granted. -/
def Granted (answer : List BlockEvent → Option Nat) : Nat → List BlockEvent → Prop
  | 0, _ => True
  | count + 1, history =>
      match answer history with
      | none => False
      | some block => Granted answer count (.taken block :: history)

/-- A supply that grants a request grants as many behind it, less one. -/
theorem granted_succ {count block : Nat} {history : List BlockEvent}
    (given : answer history = some block) :
    Granted answer (count + 1) history ↔ Granted answer count (.taken block :: history) := by
  rw [Granted, given]

/-- A supply that refuses the first request does not grant them all. -/
theorem not_granted_succ (count : Nat) {history : List BlockEvent}
    (refused : answer history = none) :
    ¬Granted answer (count + 1) history := by
  rw [Granted, refused]
  exact id

/-- No well-formed tree is stored at a block. -/
def Ruined {ρ : Type} (db : Db ρ) (root : Nat) : Prop :=
  ∀ (h : Nat) (node : Placed h), node.block = root → Placed.Stored db h node →
  ¬Searchable h (Placed.tree h node)

/-- A node whose keys do not ascend. -/
theorem Ruined.of_row {ρ : Type} {db : Db ρ} {row : List (Nat × Nat)}
    (nodeAt : NodeAt (db.data root) h row)
    (unordered : ¬row.Pairwise fun left right => left.1 < right.1) : Ruined db root := by
  intro height node place stored bounded
  have same : row = node.row := by rw [← nodeAt.entries, ← stored.root.entries, place]
  rw [same] at unordered
  exact unordered (Placed.row_ascending bounded)

/-- A node above a ruined one. -/
theorem Ruined.of_child {ρ : Type} {db : Db ρ} {front back : List (Nat × Ref (h + 1))}
    {child : Placed h}
    (nodeAt :
      NodeAt (db.data root) (h + 1) (Placed.rows (h + 1) (front ++ [(separator, child)] ++ back)))
    (ruined : Ruined db child.block) : Ruined db root := by
  intro height node place stored bounded
  have nodeAtStored := stored.root
  rw [place] at nodeAtStored
  cases height with
  | zero =>
      have magics : edbMagicBtreeLeaf = edbMagicBtree := nodeAtStored.magic.symm.trans nodeAt.magic
      exact absurd magics (by decide)
  | succ height =>
      have member : (separator, child.block) ∈ node.row := by
        rw [← nodeAtStored.entries, nodeAt.entries, Placed.rows_single]
        simp
      obtain ⟨entry, inside, word⟩ := List.mem_map.mp member
      have block : entry.2.block = child.block := congrArg Prod.snd word
      exact ruined height entry.2 block (stored.2 entry inside)
        (bounded.2 _ (List.mem_map.mpr ⟨entry, inside, rfl⟩)).2

/-- The rest of `btree_set` after the recursive call. -/
def setTail {ρ : Type} (api : BlockApi (Db ρ)) (depth root b child0 k value : Nat) (r : Int) :
    Code (Db ρ) Unit := do
  if r = 0 then do
    let b0 ← .gets fun db => db.data child0
    editNode root fun bt => Bt.setKey bt b (Bt.lastKey b0)
  else if r = edbErrorBtreeFull then do
    let bt ← .gets fun db => db.data root
    if Bt.selfSize bt < edbBtreeSize then do
      let child1 ← btreeSplit api root b child0
      let bt ← .gets fun db => db.data root
      if k ≤ Bt.key bt b then btreeSet api depth (Bt.data bt b) k value
      else btreeSet api depth (Bt.data bt (b + 1)) k value
      let b0 ← .gets fun db => db.data child0
      editNode root fun bt => Bt.setKey bt b (Bt.lastKey b0)
      let b1 ← .gets fun db => db.data child1
      editNode root fun bt => Bt.setKey bt (b + 1) (Bt.lastKey b1)
    else .fail edbErrorBtreeFull
  else .fail r

/-- Recording the number that is there changes nothing. -/
theorem setData_same {ρ : Type} (db : Db ρ) (root b : Nat) :
    editNode root (fun bt => Bt.setData bt b (Bt.data (db.data root) b)) db = .ok () db := by
  rw [editNode_run, Bt.setData, Bt.data, Image.setWord_word, Db.write_same]

/-- `btree_set` goes down to the child that the search enters. -/
theorem btreeSet_descends {front back : List (Nat × Ref (h + 1))} {child : Placed h}
    (nodeAt :
      NodeAt (db.data root) (h + 1) (Placed.rows (h + 1) (front ++ [(separator, child)] ++ back)))
    (place :
      (if listFind (db.data root) k = Bt.selfSize (db.data root) then listFind (db.data root) k - 1
      else listFind (db.data root) k) = front.length) :
    btreeSet (recorder answer) (depth + 1) root k value db =
      ((btreeSet (recorder answer) depth child.block k value).attempt >>=
        setTail (recorder answer) depth root front.length child.block k value) db := by
  have other : edbMagicBtree ≠ edbMagicBtreeLeaf := by decide
  have number : Bt.data (db.data root) front.length = child.block := by
    have rowAt := nodeAt
    rw [Placed.rows_single] at rowAt
    have entry := rowAt.entry
    rw [Placed.rows_length] at entry
    exact congrArg Prod.snd entry
  have some : ¬Bt.selfSize (db.data root) = 0 := by
    rw [nodeAt.selfSize]
    simp
  have same := setData_same db root front.length
  rw [number] at same
  have modify : (recorder answer).modify child.block db = .ok child.block db := rfl
  conv_lhs => unfold btreeSet
  simp only [Code.gets_bind, nodeAt.isBtree, nodeAt.magic, nodeMagic, Bool.not_true,
    Bool.false_eq_true, if_false, if_neg other, if_neg some, place]
  rw [number, Code.bind_ok modify, Code.bind_ok same]
  rfl

/-- A separator 0 behind another one. -/
theorem zero_unordered {front back : List (Nat × Nat)} (first second : Nat) :
    ¬(front ++ (separator, first) :: (0, second) :: back).Pairwise fun left right =>
      left.1 < right.1 := by
  intro ascending
  have later :=
    (List.pairwise_cons.mp (List.pairwise_append.mp ascending).2.1).1 (0, second) List.mem_cons_self
  exact absurd later (Nat.not_lt_zero _)

/-- A node with room made for a child that is not there. -/
theorem Ruined.of_insert {ρ : Type} {db : Db ρ} {front back : List (Nat × Nat)} {number : Nat}
    (nodeAt : NodeAt (db.data root) h (front ++ (separator, number) :: back))
    (room : (front ++ (separator, number) :: back).length < 510) {after : Db ρ}
    (written : after.data root = listInsert (db.data root) (front.length + 1) 0 0) :
    Ruined after root := by
  have shape : front ++ (separator, number) :: back = (front ++ [(separator, number)]) ++ back := by
    simp
  rw [shape] at nodeAt room
  have zero : 0 < 4294967296 := by decide
  have inserted := nodeAt.listInsert room zero zero
  rw [List.length_append, List.length_singleton, ← written] at inserted
  refine .of_row inserted ?_
  rw [List.append_assoc, List.singleton_append]
  exact zero_unordered number 0

/-- Recording the last keys of the two halves. -/
def labelHalves {ρ : Type} (root b child0 child1 : Nat) : Code (Db ρ) Unit := do
  let b0 ← .gets fun db => db.data child0
  editNode root fun bt => Bt.setKey bt b (Bt.lastKey b0)
  let b1 ← .gets fun db => db.data child1
  editNode root fun bt => Bt.setKey bt (b + 1) (Bt.lastKey b1)

section Tail

variable {b child0 child1 : Nat} {after : Db (List BlockEvent)}

/-- The repetition after a split. -/
theorem setTail_split (room : Bt.selfSize (db.data root) < edbBtreeSize)
    (split : btreeSplit (recorder answer) root b child0 db = .ok child1 after) :
    setTail (recorder answer) depth root b child0 k value edbErrorBtreeFull db =
      (btreeSet (recorder answer) depth
          (if k ≤ Bt.key (after.data root) b then Bt.data (after.data root) b
            else Bt.data (after.data root) (b + 1)) k value >>= fun _ =>
        labelHalves root b child0 child1) after := by
  unfold setTail
  rw [if_neg (by decide), if_pos rfl, Code.gets_bind, if_pos room,
    Code.bind_ok split, Code.gets_bind]
  by_cases low : k ≤ Bt.key (after.data root) b
  · rw [if_pos low, if_pos low]
    rfl
  · rw [if_neg low, if_neg low]
    rfl

/-- When the split of a child is refused, the set fails as the split does. -/
theorem setTail_refused {code : Int} (room : Bt.selfSize (db.data root) < edbBtreeSize)
    (split : btreeSplit (recorder answer) root b child0 db = .error code failed) :
    setTail (recorder answer) depth root b child0 k value edbErrorBtreeFull db =
      .error code failed := by
  unfold setTail
  rw [if_neg (by decide), if_pos rfl, Code.gets_bind, if_pos room, Code.bind_error split]

/-- A split whose block is granted. -/
theorem btreeSplit_recorded (root b child0 : Nat) {new : Nat} (granted : answer db.ctl = some new) :
    ∃ after, btreeSplit (recorder answer) root b child0 db = .ok new after ∧
      btreeSplit (recorder (steady answer)) root b child0 db = .ok new after ∧
      after.ctl = .taken new :: db.ctl := by
  have here : answer (db.write root (listInsert (db.data root) (b + 1) 0 0)).ctl = some new :=
    granted
  have same : btreeSplit (recorder answer) root b child0 db =
      btreeSplit (recorder (steady answer)) root b child0 db := by
    unfold btreeSplit
    rw [Code.bind_ok (editNode_run _ _ _), Code.bind_ok (editNode_run _ _ _),
      Code.bind_ok (recorder_granted here), Code.bind_ok (recorder_granted (steady_of_some here))]
  have ran : ∃ after, btreeSplit (recorder answer) root b child0 db = .ok new after ∧
      after.ctl = .taken new :: db.ctl := by
    unfold btreeSplit
    rw [Code.bind_ok (editNode_run _ _ _), Code.bind_ok (recorder_granted here)]
    exact ⟨_, rfl, rfl⟩
  obtain ⟨after, ran, history⟩ := ran
  exact ⟨after, ran, same.symm.trans ran, history⟩

/-- A split whose block is refused has made room already. -/
theorem btreeSplit_unanswered (refused : answer db.ctl = none) :
    btreeSplit (recorder answer) root b child0 db =
      .error (-1) (refuse (db.write root (listInsert (db.data root) (b + 1) 0 0))) := by
  have here : answer (db.write root (listInsert (db.data root) (b + 1) 0 0)).ctl = none := refused
  unfold btreeSplit
  rw [Code.bind_ok (editNode_run _ _ _), Code.bind_error (recorder_refused here)]

end Tail

/-- The blocks that are out, as the holder's. -/
def outBlocks (db : Db (List BlockEvent)) : Set Nat := {block | block ∈ outstanding db.ctl}

/-- A block that was taken is outstanding. -/
theorem outBlocks_taken {after : Db (List BlockEvent)} {new : Nat}
    (history : after.ctl = .taken new :: db.ctl) :
    outBlocks after = insert new (outBlocks db) := by
  ext block
  rw [outBlocks, history, Set.mem_insert_iff]
  exact List.mem_cons

/-- A granted request is one that the steady allocator can answer. -/
theorem RecorderValid.holder (fresh : FreshAnswers answer)
    (valid : RecorderValid own db) {new : Nat}
    (granted : answer db.ctl = some new) :
    (steadyContract fresh).holder.Valid (outBlocks db) [0] db := by
  obtain ⟨unused, number⟩ := fresh db.ctl new granted
  have numbers : ∀ block ∈ new :: outstanding db.ctl, 0 < block ∧ block < 4294967296 := by
    intro block member
    rcases List.mem_cons.mp member with rfl | out
    · exact number
    · exact valid.numbers block out
  have count := length_le_of_numbers (List.nodup_cons.mpr ⟨unused, valid.distinct⟩) numbers
  have total := valid.room
  rw [List.length_cons] at count
  refine ⟨own, valid, fun block => (valid.live block).symm, by simp, ?_⟩
  rw [List.length_singleton]
  omega

/-- What `btree_set` does: it reports a full route and changes nothing; it carries out the
insertion when each node it cuts is granted a block; or it leaves a ruined tree. -/
def SetAnswered (answer : List BlockEvent → Option Nat) (db : Db (List BlockEvent))
    (node : Placed h) (k : Nat) (outcome : Outcome (Db (List BlockEvent)) Unit) : Prop :=
  (pathFull 510 h (Placed.tree h node) k = true ∧ outcome = .error edbErrorBtreeFull db) ∨
  (pathFull 510 h (Placed.tree h node) k = false ∧
    ((Granted answer (cuts 510 127 h (Placed.tree h node) k) db.ctl ∧
      ∃ after, outcome = .ok () after) ∨
      (¬Granted answer (cuts 510 127 h (Placed.tree h node) k) db.ctl ∧
        ∃ failed, outcome = .error (-1) failed ∧
        Ruined failed node.block ∧
        ∀ other ∈ outBlocks db, other ∉ Placed.blocks h node → failed.data other = db.data other)))

section Halves

variable {front back : List (Nat × Ref (h + 1))} {child half : Placed h} {new label : Nat}
  {split : Db (List BlockEvent)}

/-- The tree below an entry of a node. -/
theorem Trunk.child_of_mem {held : Set Nat} {entries : List (Nat × Ref (h + 1))}
    (trunk : Trunk held db h root entries) (member : (label, half) ∈ entries) :
    Placed.Held held db h half := by
  obtain ⟨before, behind, rfl⟩ := List.append_of_mem member
  have shape : before ++ (label, half) :: behind = before ++ [(label, half)] ++ behind := by simp
  rw [shape] at trunk
  exact trunk.child

/-- Behind a split, each child of the parent is held. -/
theorem Halved.heldHalf
    (halved : Halved (steadyContract fresh).holder (outBlocks db) [] db root front separator
      child back new split)
    (history : split.ctl = .taken new :: db.ctl)
    (member : (label, half) ∈ front ++ [(separator, child.lower), (0, child.upper new)] ++ back) :
    Placed.Held (outBlocks split) split h half := by
  rw [outBlocks_taken history]
  exact halved.trunk.child_of_mem member

/-- `btree_set` on one of the halves of a child, and the labels after it. -/
theorem Halved.answered {b child0 child1 : Nat}
    (halved : Halved (steadyContract fresh).holder (outBlocks db) [] db root front separator
      child back new split)
    (history : split.ctl = .taken new :: db.ctl)
    (member : (label, half) ∈ front ++ [(separator, child.lower), (0, child.upper new)] ++ back)
    (short : (Placed.tree h half).length ≠ 510) {outcome : Outcome (Db (List BlockEvent)) Unit}
    (answered : SetAnswered answer split half k outcome) :
    (Granted answer (cuts 510 127 h (Placed.tree h half) k) split.ctl ∧
        ∃ after, Code.andThen (fun _ => outcome) (fun _ => labelHalves root b child0 child1) split =
          .ok () after) ∨
      (¬Granted answer (cuts 510 127 h (Placed.tree h half) k) split.ctl ∧
        ∃ failed, Code.andThen (fun _ => outcome) (fun _ =>
          labelHalves root b child0 child1) split =
            .error (-1) failed ∧ Ruined failed root ∧
          ∀ other ∈ outBlocks db, other ∉ root ::
            Placed.kids h (front ++ [(separator, child)] ++ back) →
            failed.data other = db.data other) := by
  have trunk := halved.trunk
  rw [← outBlocks_taken history] at trunk
  have inside : ∀ block ∈ Placed.blocks h half,
      block ∈ Placed.kids h (front ++ [(separator, child.lower), (0, child.upper new)] ++ back) :=
    fun block here => Placed.mem_kids.mpr ⟨_, member, here⟩
  rcases answered with ⟨full, _⟩ | ⟨_, ⟨granted, after, ran⟩ | ⟨refused, failed, ran, _, same⟩⟩
  · rw [not_pathFull_of_length short] at full
    cases full
  · left
    refine ⟨granted, ?_⟩
    simp only [Code.andThen, ran]
    exact ⟨_, rfl⟩
  · right
    refine ⟨refused, failed, ?_, ?_, fun other out apart => ?_⟩
    · simp only [Code.andThen, ran]
    · have nodeAt := halved.nodeAt
      rw [Placed.rows_pair, ← same root trunk.mine fun here =>
        trunk.apart (inside root here)] at nodeAt
      exact .of_row nodeAt (zero_unordered _ _)
    · obtain ⟨kept, equal⟩ := halved.confined.kept other out apart
      rw [← outBlocks_taken history] at kept
      refine (same other kept fun here => ?_).trans equal
      rcases halved.confined.fresh other (List.mem_cons_of_mem _ (inside other here)) with
        old | absent
      · exact apart old
      · exact absent out

end Halves

/-- `btree_set` when requests for blocks may be refused. -/
theorem btreeSet_answered (fresh : FreshAnswers answer) (keyBounded : k < 4294967296)
    (valueBounded : value < 4294967296) {node : Placed h} (valid : RecorderValid own db)
    (heldNode : Placed.Held (outBlocks db) db h node) (bounded : Searchable h (Placed.tree h node))
    (small : Every (· ≤ 510) h (Placed.tree h node)) (filled : Filled h (Placed.tree h node))
    (deep : h < depth) :
    SetAnswered answer db node k (btreeSet (recorder answer) depth node.block k value db) := by
  induction h generalizing depth own db with
  | zero =>
      obtain ⟨depth, rfl⟩ := Nat.exists_eq_succ_of_ne_zero (Nat.ne_of_gt deep)
      have nodeAt : NodeAt (db.data node.block) 0 node.entries :=
        Placed.row_zero node ▸ heldNode.stored.root
      have run : btreeSet (recorder answer) (depth + 1) node.block k value db =
          btreeSetLeaf node.block k value db := by
        change (Code.gets (fun db : Db (List BlockEvent) => db.data node.block) >>= _) db = _
        simp only [Code.gets_bind, nodeAt.isBtree, nodeAt.magic, nodeMagic, Bool.not_true,
          Bool.false_eq_true, if_false, if_true]
      rw [run]
      rcases btreeSetLeaf_run nodeAt bounded small keyBounded valueBounded with
        ⟨full, ran⟩ | ⟨room, image, ran, _⟩
      · exact .inl ⟨full, ran⟩
      · exact .inr ⟨room, .inl ⟨trivial, _, ran⟩⟩
  | succ h ih =>
      obtain ⟨depth, rfl⟩ := Nat.exists_eq_succ_of_ne_zero
        (Nat.ne_of_gt (Nat.lt_of_le_of_lt (Nat.zero_le _) deep))
      have count : 0 < node.entries.length := by
        rw [← Placed.tree_length]
        exact filled.all.1
      obtain ⟨front, ⟨separator, child⟩, back, cut⟩ := Cut.exists (k := k) count
      have nodeAt := heldNode.stored.root
      have place := place_eq cut nodeAt (Placed.row_ascending bounded)
      have trunk := Trunk.of_held heldNode
      have shape : node.entries = front ++ [(separator, child)] ++ back := by simp [cut.shape]
      have width : node.entries.length ≤ 510 := by
        rw [← Placed.tree_length]
        exact small.1
      rw [Placed.row, shape] at nodeAt
      rw [shape] at trunk
      have inner : Searchable h (Placed.tree h child) := (bounded.2 _ cut.trees.mem_child).2
      have childSmall : Every (· ≤ 510) h (Placed.tree h child) := small.2 _ cut.trees.mem_child
      have childFilled : Every (0 < ·) h (Placed.tree h child) := filled.all.2 _ cut.trees.mem_child
      have size : Bt.selfSize (db.data node.block) = node.entries.length := by
        rw [nodeAt.selfSize, Placed.rows_length, shape]
      have start : btreeSet (recorder answer) (depth + 1) node.block k value db = _ :=
        btreeSet_descends nodeAt place
      have outside : ∀ other, other ∉ Placed.blocks (h + 1) node →
          other ∉ Placed.blocks h child := by
        intro other apart inside
        rw [Placed.blocks_succ, List.mem_cons, not_or, shape, Placed.not_mem_kids,
          Placed.kids_single] at apart
        exact apart.2.2.1 inside
      rw [start]
      rcases ih valid trunk.child inner childSmall childFilled.filled
        (Nat.lt_of_succ_lt_succ deep) with
        ⟨full, ran⟩ | ⟨room, ⟨granted, after, ran⟩ | ⟨refused, failed, ran, ruined, same⟩⟩
      · -- the child is full
        rw [Code.bind_ok (Code.attempt_error ran)]
        by_cases crowded : node.entries.length = 510
        · refine .inl ⟨?_, ?_⟩
          · rw [pathFull_succ cut.trees, full, Placed.tree_length, crowded]
            rfl
          · unfold setTail
            rw [if_neg (by decide), if_pos rfl, Code.gets_bind, size, crowded,
              if_neg (Nat.lt_irrefl 510)]
            rfl
        · have less : node.entries.length < 510 := by omega
          have room : Bt.selfSize (db.data node.block) < edbBtreeSize := by rw [size]; exact less
          have wide : (front ++ [(separator, child)] ++ back).length < 510 := by
            rw [← shape]; exact less
          have childWidth : child.entries.length = 510 := by
            rw [← Placed.tree_length]
            exact pathFull_length full
          refine .inr ⟨not_pathFull_of_length (by rw [Placed.tree_length]; exact crowded), ?_⟩
          rw [cuts_full cut.trees full]
          cases given : answer db.ctl with
          | none =>
              refine .inr ⟨not_granted_succ _ given, _,
                setTail_refused room (btreeSplit_unanswered given), ?_, ?_⟩
              · rw [Placed.rows_single] at nodeAt
                have narrow : (Placed.rows (h + 1) front ++ (separator, child.block) ::
                    Placed.rows (h + 1) back).length < 510 := by
                  rw [← Placed.rows_single, Placed.rows_length]
                  exact wide
                refine .of_insert nodeAt narrow ?_
                rw [Placed.rows_length]
                exact Db.write_data_self _ _ _
              · intro other out apart
                refine Db.write_data_of_ne ?_
                rintro rfl
                exact apart (Placed.block_mem node)
          | some new =>
              obtain ⟨split, ranSplit, steadily, history⟩ :=
                btreeSplit_recorded node.block front.length child.block given
              obtain ⟨child1, after, ranSteady, halved⟩ :=
                btreeSplit_halves (steadyContract fresh).holder
                (valid.holder fresh given) trunk nodeAt wide childWidth
              rw [steadily] at ranSteady
              cases ranSteady
              obtain ⟨own', validSplit, _⟩ := halved.valid
              have region : Placed.blocks (h + 1) node =
                  node.block :: Placed.kids h (front ++ [(separator, child)] ++ back) := by
                rw [Placed.blocks_succ, shape]
              have childLength : (Placed.tree h child).length = 510 := pathFull_length full
              have bounds : 0 < 127 ∧ 127 < 510 := by decide
              rw [setTail_split room ranSplit, halved.key, halved.lowData, halved.highData,
                granted_succ given, ← history, region]
              by_cases low : k ≤ separator
              · have tree := Placed.tree_lower child
                have length : ((Placed.tree h child).take 127).length = 127 := by
                  rw [List.length_take, childLength]
                  rfl
                have member : (separator, Placed.lower child) ∈
                    front ++ [(separator, Placed.lower child),
                      (0, Placed.upper child new)] ++ back := by simp
                have spec := ih validSplit (halved.heldHalf history member)
                  (by rw [tree]; exact inner.sublist (List.take_sublist _ _))
                  (by
                    rw [tree]; exact childSmall.of_entries (fun _ =>
                      List.mem_of_mem_take) (by omega))
                  (by rw [tree]; exact (take_filled bounds full childFilled).filled)
                  (Nat.lt_of_succ_lt_succ deep)
                rw [if_pos low, if_pos low, ← tree]
                exact halved.answered history member (by rw [tree]; omega) spec
              · have tree := Placed.tree_upper child new
                have length : ((Placed.tree h child).drop 127).length = 383 := by
                  rw [List.length_drop, childLength]
                have member : (0, Placed.upper child new) ∈
                    front ++ [(separator, Placed.lower child),
                      (0, Placed.upper child new)] ++ back := by simp
                have spec := ih validSplit (halved.heldHalf history member)
                  (by rw [tree]; exact inner.sublist (List.drop_sublist _ _))
                  (by
                    rw [tree]; exact childSmall.of_entries (fun _ =>
                      List.mem_of_mem_drop) (by omega))
                  (by rw [tree]; exact (drop_filled bounds full childFilled).filled)
                  (Nat.lt_of_succ_lt_succ deep)
                rw [if_neg low, if_neg low, ← tree]
                exact halved.answered history member (by rw [tree]; omega) spec
      · refine .inr ⟨?_, .inl ⟨?_, ?_⟩⟩
        · rw [pathFull_succ cut.trees, room, Bool.and_false]
        · rw [cuts_inside cut.trees room]
          exact granted
        · rw [Code.bind_ok (Code.attempt_ok ran)]
          exact ⟨_, rfl⟩
      · refine .inr ⟨?_,
          .inr ⟨?_, failed, ?_, ?_, fun other out apart => same other out (outside other apart)⟩⟩
        · rw [pathFull_succ cut.trees, room, Bool.and_false]
        · rw [cuts_inside cut.trees room]
          exact refused
        · rw [Code.bind_ok (Code.attempt_error ran)]
          rfl
        · have rootApart := (Placed.not_mem_kids.mp trunk.apart).2.1
          rw [Placed.kids_single] at rootApart
          rw [← same node.block trunk.mine rootApart] at nodeAt
          exact .of_child nodeAt ruined

/-- A well-formed tree with the given pairs is stored at a block. -/
def Intact {ρ : Type} (db : Db ρ) (contents : List (Nat × Nat)) (root : Nat) : Prop :=
  ∃ (h : Nat) (node : Placed h), node.block = root ∧ Placed.Stored db h node ∧
  (Placed.blocks h node).Nodup ∧
    WellFormed keys h (Placed.tree h node) ∧ pairs h (Placed.tree h node) = contents

/-- A ruined root no longer holds the contents. -/
theorem Ruined.not_intact {ρ : Type} {db : Db ρ} {contents : List (Nat × Nat)}
    (ruined : Ruined db root) :
    ¬Intact db contents root := by
  rintro ⟨h, node, place, stored, _, wellFormed, _⟩
  exact ruined h node place stored wellFormed.bounded.searchable

/-- The calls of the allocator do not matter to a tree. -/
theorem intact_refused (data : Nat → Image) (history : List BlockEvent)
    (contents : List (Nat × Nat)) :
    Intact (refuse ⟨data, history⟩) contents root ↔
    Intact (⟨data, db.ctl⟩ : Db (List BlockEvent)) contents root := by
  have stored : ∀ (first second : List BlockEvent), Intact
      (⟨data, first⟩ : Db (List BlockEvent)) contents root →
      Intact (⟨data, second⟩ : Db (List BlockEvent)) contents root := by
    rintro first second ⟨h, node, place, stored, rest⟩
    exact ⟨h, node, place, stored.congr fun block _ => rfl, rest⟩
  exact ⟨stored _ _, stored _ _⟩

/-- A failed `btree_set` leaves the tree as it was. -/
def SetUndamaged {ρ : Type} (contents : List (Nat × Nat)) (root : Nat)
    (outcome : Outcome (Db ρ) Unit) : Prop :=
  ∀ code failed, outcome = .error code failed → Intact failed contents root

/-- A failed `btree_grow` leaves a root from which the tree is reached as it was. -/
def GrowUndamaged {ρ : Type} (contents : List (Nat × Nat))
    (outcome : Outcome (Db ρ) (Int × Nat)) : Prop :=
  ∀ code root failed, outcome = .ok (code, root) failed → code ≠ 0 → Intact failed contents root

/-- `btree_grow` with both blocks returns no error. -/
theorem btreeGrowInto_code {ρ : Type} {db after : Db ρ} {newRoot child1 grown : Nat} {code : Int}
    (ran : btreeGrowInto root newRoot child1 db = .ok (code, grown) after) : code = 0 := by
  simp only [btreeGrowInto, btreeInit, editNode, Code.update_bind, Code.gets_bind] at ran
  split at ran
  · cases ran
  · simp only [Code.update_bind, Code.pure_run] at ran
    cases ran
    rfl

/-- `btree_grow` does no damage unless its second request is refused over a block of other
bytes. -/
theorem btreeGrow_undamaged {node : Placed h} (heldNode : Placed.Held (outBlocks db) db h node)
    (wellFormed : WellFormed keys h (Placed.tree h node)) :
    GrowUndamaged (pairs h (Placed.tree h node))
      (btreeGrow (recorder answer) node.block node.block db) ↔
      ∀ new, answer db.ctl = some new → (answer (.taken new :: db.ctl)).isSome ∨
        Intact db (pairs h (Placed.tree h node)) new := by
  have start : btreeGrow (recorder answer) node.block node.block db =
      Code.branch (recorder answer).allocate (fun code => pure (code, node.block)) (fun newRoot =>
        .branch (recorder answer).allocate (fun code => pure (code, newRoot)) fun child1 =>
        btreeGrowInto node.block newRoot child1) db := by
    change (Code.gets (fun db : Db (List BlockEvent) => db.data node.block) >>= _) db = _
    rw [Code.gets_bind, heldNode.stored.root.isBtree, if_neg (by decide)]
    rfl
  have intact : Intact db (pairs h (Placed.tree h node)) node.block :=
    ⟨h, node, rfl, heldNode.stored, heldNode.distinct, wellFormed, rfl⟩
  rw [start]
  cases first : answer db.ctl with
  | none =>
      rw [Code.branch_error (recorder_refused first)]
      refine iff_of_true ?_ fun new given => by cases given
      rintro _ _ _ ⟨⟩ _
      exact (intact_refused _ _ _).mpr intact
  | some new =>
      rw [Code.branch_ok (recorder_granted first)]
      have only : ∀ {claim : Nat → Prop}, (∀ other, some new = some other → claim other) ↔
          claim new :=
        ⟨fun all => all new rfl, fun here other same => by cases same; exact here⟩
      rw [only]
      cases second : answer (.taken new :: db.ctl) with
      | none =>
          have refused : answer (Db.ctl ⟨db.data, .taken new :: db.ctl⟩) = none := second
          rw [Code.branch_error (recorder_refused refused)]
          simp only [Option.isSome_none, Bool.false_eq_true, false_or]
          constructor
          · intro undamaged
            have nonzero : (-1 : Int) ≠ 0 := by decide
            exact (intact_refused _ _ _).mp (undamaged (-1) new _ rfl nonzero)
          · rintro stale _ _ _ ⟨⟩ _
            exact (intact_refused _ _ _).mpr stale
      | some child1 =>
          have granted : answer (Db.ctl ⟨db.data, .taken new :: db.ctl⟩) = some child1 := second
          rw [Code.branch_ok (recorder_granted granted)]
          refine iff_of_true (fun code grown failed ran nonzero => ?_) (.inl rfl)
          exact absurd (btreeGrowInto_code ran) nonzero

/-- A refused block damages no tree exactly when, in `btree_set`, the whole route is full
or each node the insertion cuts is granted a block, and, in `btree_grow`, the first block
is refused or the second one granted, or the tree is found again in the first block. -/
theorem refusedBlock_undamaged_iff (fresh : FreshAnswers answer) (keyBounded : k < 4294967296)
    (valueBounded : value < 4294967296) {node : Placed h} (valid : RecorderValid own db)
    (heldNode : Placed.Held (outBlocks db) db h node)
    (wellFormed : WellFormed keys h (Placed.tree h node)) (deep : h < depth) :
    (SetUndamaged (pairs h (Placed.tree h node)) node.block
        (btreeSet (recorder answer) depth node.block k value db) ↔
      pathFull edbBtreeSize h (Placed.tree h node) k = true ∨
        Granted answer (cuts edbBtreeSize edbBtreeSplit h (Placed.tree h node) k) db.ctl) ∧
    (GrowUndamaged (pairs h (Placed.tree h node))
      (btreeGrow (recorder answer) node.block node.block db) ↔
      ∀ new, answer db.ctl = some new → (answer (.taken new :: db.ctl)).isSome ∨
        Intact db (pairs h (Placed.tree h node)) new) := by
  refine ⟨?_, btreeGrow_undamaged heldNode wellFormed⟩
  rcases btreeSet_answered fresh keyBounded valueBounded valid heldNode
    wellFormed.bounded.searchable
    wellFormed.sized wellFormed.filled deep with
    ⟨full, ran⟩ | ⟨room, ⟨granted, after, ran⟩ | ⟨refused, failed, ran, ruined, _⟩⟩
  · refine iff_of_true ?_ (.inl full)
    rw [ran]
    rintro _ _ ⟨⟩
    exact ⟨h, node, rfl, heldNode.stored, heldNode.distinct, wellFormed, rfl⟩
  · refine iff_of_true ?_ (.inr granted)
    rw [ran]
    rintro _ _ ⟨⟩
  · refine iff_of_false (fun undamaged => ruined.not_intact (undamaged _ _ ran)) ?_
    rintro (full | granted)
    · rw [room] at full
      cases full
    · exact refused granted

/-- The full leaf and its root, which are the blocks that are out. -/
def crowdedRecord : Db (List BlockEvent) :=
  ⟨Placed.memory (Placed.images 1 crowded), [.taken 1, .taken 2]⟩

/-- The recorder has given out the blocks of the tree. -/
theorem crowdedRecord_valid : RecorderValid (holding crowdedRecord.ctl) crowdedRecord :=
  holding_valid (by decide) (by decide)

/-- The memory under the recorder holds the tree. -/
theorem crowdedRecord_held : Placed.Held (outBlocks crowdedRecord) crowdedRecord 1 crowded :=
  Placed.held_memory crowded_fits (by decide)

/-- With a block for the split and two for a new root, nothing fails. -/
theorem refusedBlock_undamaged_iff_crowded :
    SetUndamaged (pairs 1 (Placed.tree 1 crowded)) 1
      (btreeSet (recorder leastUnused) 2 1 901 7 crowdedRecord) ∧
      GrowUndamaged (pairs 1 (Placed.tree 1 crowded))
        (btreeGrow (recorder leastUnused) 1 1 crowdedRecord) := by
  have keyBounded : 901 < 4294967296 := by decide
  have valueBounded : 7 < 4294967296 := by decide
  have deep : 1 < 2 := by decide
  obtain ⟨set, grow⟩ :=
    refusedBlock_undamaged_iff leastUnused_fresh keyBounded valueBounded crowdedRecord_valid
    crowdedRecord_held crowded_wellFormed deep
  refine ⟨set.mpr (.inr ?_), grow.mpr fun new _ => .inl ?_⟩
  · obtain ⟨block, given⟩ := leastUnused_grants crowdedRecord.ctl (by decide)
    rw [cuts_full (crowded_cut 901) (evens_full rfl), granted_succ given]
    trivial
  · obtain ⟨block, given⟩ :=
      leastUnused_grants (.taken new :: crowdedRecord.ctl) (show 3 < 4294967295 by decide)
    rw [given]
    rfl

/-- A split that is refused its block leaves a root with a separator 0 behind 1018. -/
theorem btreeSet_refused_ruins :
    ¬SetUndamaged (pairs 1 (Placed.tree 1 crowded)) 1
      (btreeSet (recorder refuseAll) 2 1 901 7 crowdedRecord) := by
  have keyBounded : 901 < 4294967296 := by decide
  have valueBounded : 7 < 4294967296 := by decide
  have deep : 1 < 2 := by decide
  have cut := crowded_cut 901
  have refused :
      ¬Granted refuseAll (cuts 510 127 1 (Placed.tree 1 crowded) 901) crowdedRecord.ctl := by
    rw [cuts_full cut (evens_full rfl)]
    exact not_granted_succ _ rfl
  rcases btreeSet_answered refuseAll_fresh keyBounded valueBounded crowdedRecord_valid
    crowdedRecord_held
    crowded_wellFormed.bounded.searchable crowded_wellFormed.sized
      crowded_wellFormed.filled deep with
    ⟨full, _⟩ | ⟨_, ⟨granted, _⟩ | ⟨_, failed, ran, ruined, _⟩⟩
  · rw [not_pathFull_of_length (by decide)] at full
    cases full
  · exact absurd granted refused
  · exact fun undamaged => ruined.not_intact (undamaged _ _ ran)

end EverDb
