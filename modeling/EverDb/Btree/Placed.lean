import EverDb.Btree.Node
import EverDb.Block.Holder
import EverDb.Foundation.BPlus.Basic

/-!
# Trees in memory

A placed tree carries the block number of every node. `Stored` says that the
blocks hold its nodes, `Held` also that no block occurs twice and that all of
them are the holder's; `tree` forgets the numbers.
-/

namespace EverDb

open Foundation

variable {ρ : Type}

/-- A node with its block number. -/
@[ext] structure Node (α : Type) where
  block : Nat
  entries : List (Nat × α)

/-- What an entry of a placed node refers to. -/
@[reducible] def Ref : Nat → Type
  | 0 => Nat
  | h + 1 => Node (Ref h)

/-- A placed tree with `h` levels below its root. -/
abbrev Placed (h : Nat) : Type := Node (Ref h)

/-- The word that stands for an entry: a value, or the number of a child. -/
def Ref.number : (h : Nat) → Ref h → Nat
  | 0, value => value
  | _ + 1, child => child.block

/-- The magic number of the nodes at a height. -/
def nodeMagic : Nat → Nat
  | 0 => edbMagicBtreeLeaf
  | _ + 1 => edbMagicBtree

/-- A node of a tree: its magic number and its entries. -/
structure NodeAt (bt : Image) (h : Nat) (row : List (Nat × Nat)) : Prop where
  magic : Bt.magic bt = nodeMagic h
  entries : Bt.entries bt = row

namespace Placed

/-- The words of some entries. -/
def rows (h : Nat) (entries : List (Nat × Ref h)) : List (Nat × Nat) :=
  entries.map fun entry => (entry.1, Ref.number h entry.2)

/-- The words of a node's entries. -/
def row {h : Nat} (node : Placed h) : List (Nat × Nat) := rows h node.entries

/-- Forget the block numbers. -/
def tree : (h : Nat) → Placed h → BPlus Nat Nat h
  | 0, leaf => leaf.entries
  | h + 1, node => node.entries.map fun entry => (entry.1, tree h entry.2)

/-- Forget the block numbers of some children. -/
def trees (h : Nat) (entries : List (Nat × Ref (h + 1))) : BPlus Nat Nat (h + 1) :=
  entries.map fun entry => (entry.1, tree h entry.2)

/-- The blocks of a tree. -/
def blocks : (h : Nat) → Placed h → List Nat
  | 0, leaf => [leaf.block]
  | h + 1, node => node.block :: node.entries.flatMap fun entry => blocks h entry.2

/-- The blocks below the root. -/
def below : (h : Nat) → Placed h → List Nat
  | 0, _ => []
  | h + 1, node => node.entries.flatMap fun entry => blocks h entry.2

/-- The blocks hold the nodes of the tree. -/
def Stored (db : Db ρ) : (h : Nat) → Placed h → Prop
  | 0, leaf => NodeAt (db.data leaf.block) 0 leaf.row
  | h + 1, node => NodeAt (db.data node.block) (h + 1) node.row ∧
      ∀ entry ∈ node.entries, Stored db h entry.2

/-- The tree is stored in distinct blocks of the holder. -/
structure Held (held : Set Nat) (db : Db ρ) (h : Nat) (node : Placed h) : Prop where
  stored : Stored db h node
  distinct : (blocks h node).Nodup
  mine : ∀ block ∈ blocks h node, block ∈ held

variable {h : Nat} {node : Placed h} {db after : Db ρ}

/-- The blocks of a tree are the root's and those below. -/
theorem blocks_eq (node : Placed h) : blocks h node = node.block :: below h node := by
  cases h <;> rfl

/-- The root is one of the blocks. -/
theorem block_mem (node : Placed h) : node.block ∈ blocks h node := by
  rw [blocks_eq]
  exact List.mem_cons_self

/-- The image of the root lists its row. -/
theorem Stored.root (stored : Stored db h node) : NodeAt (db.data node.block) h node.row := by
  cases h with
  | zero => exact stored
  | succ h => exact stored.1

/-- The rows of two lists of entries put together. -/
theorem rows_append (left right : List (Nat × Ref h)) :
    rows h (left ++ right) = rows h left ++ rows h right := List.map_append

/-- A row for each entry. -/
@[simp] theorem rows_length (entries : List (Nat × Ref h)) :
    (rows h entries).length = entries.length :=
  List.length_map _

/-- The row of a node is as long as its entries. -/
@[simp] theorem row_length (node : Placed h) : node.row.length = node.entries.length :=
  rows_length node.entries

/-- The tree of a node has its entries. -/
theorem tree_length (node : Placed h) : (tree h node).length = node.entries.length := by
  cases h with
  | zero => rfl
  | succ h => exact List.length_map _

/-- Where the root lies does not matter to the tree. -/
theorem tree_moved (node : Placed h) (block : Nat) :
    tree h (⟨block, node.entries⟩ : Placed h) = tree h node := by
  cases h <;> rfl

/-- Where the root lies does not matter to the blocks below. -/
theorem below_moved (node : Placed h) (block : Nat) :
    below h (⟨block, node.entries⟩ : Placed h) = below h node := by
  cases h <;> rfl

/-- The tree of the lower entries of a node. -/
theorem tree_take (node : Placed h) (count : Nat) :
    tree h (⟨node.block, node.entries.take count⟩ : Placed h) = (tree h node).take count := by
  cases h with
  | zero => rfl
  | succ h => exact List.map_take

/-- The tree of the upper entries, which may lie in another block. -/
theorem tree_drop (node : Placed h) (block count : Nat) :
    tree h (⟨block, node.entries.drop count⟩ : Placed h) = (tree h node).drop count := by
  cases h with
  | zero => rfl
  | succ h => exact List.map_drop

/-- The tree of an inner node is the list of its children's. -/
theorem tree_succ (node : Placed (h + 1)) : tree (h + 1) node = trees h node.entries := rfl

/-- The entries of a node, split, and its tree. -/
theorem tree_split {front back : List (Nat × Ref (h + 1))} {key : Nat} {child : Placed h} :
    trees h (front ++ [(key, child)] ++ back) =
      trees h front ++ [(key, tree h child)] ++ trees h back := by
  simp [trees]

/-- A tree depends on its blocks only. -/
theorem Stored.congr (stored : Stored db h node)
    (same : ∀ block ∈ blocks h node, after.data block = db.data block) : Stored after h node := by
  induction h with
  | zero =>
      have here : after.data node.block = db.data node.block := same _ (block_mem node)
      rw [Stored, here]
      exact stored
  | succ h ih =>
      refine ⟨?_, fun entry member => ih (stored.2 entry member) fun block inside => same block ?_⟩
      · rw [same _ (block_mem node)]
        exact stored.1
      · exact List.mem_cons_of_mem _ (List.mem_flatMap.mpr ⟨entry, member, inside⟩)

/-- Cutting a node divides the blocks below it. -/
theorem below_cut (node : Placed h) (low high count : Nat) :
    below h (⟨low, node.entries.take count⟩ : Placed h) ++
      below h (⟨high, node.entries.drop count⟩ : Placed h) = below h node := by
  cases h with
  | zero => rfl
  | succ h =>
      simp only [below]
      rw [← List.flatMap_append, List.take_append_drop]

/-- The blocks of some children. -/
def kids (h : Nat) (entries : List (Nat × Ref (h + 1))) : List Nat :=
  entries.flatMap fun entry => blocks h entry.2

/-- The blocks of an inner node are its own and its children's. -/
theorem blocks_succ (node : Placed (h + 1)) :
    blocks (h + 1) node = node.block :: kids h node.entries := rfl

/-- A block below a list of entries is below one of them. -/
theorem mem_kids {entries : List (Nat × Ref (h + 1))} {block : Nat} :
    block ∈ kids h entries ↔ ∃ entry ∈ entries, block ∈ blocks h entry.2 := List.mem_flatMap

/-- The blocks below two lists put together. -/
theorem kids_append (left right : List (Nat × Ref (h + 1))) :
    kids h (left ++ right) = kids h left ++ kids h right := List.flatMap_append

/-- A block below two lists put together is below one of them. -/
theorem mem_kids_append {left right : List (Nat × Ref (h + 1))} {block : Nat} :
    block ∈ kids h (left ++ right) ↔ block ∈ kids h left ∨ block ∈ kids h right := by
  rw [kids_append, List.mem_append]

/-- A block that is below none of three parts. -/
theorem not_mem_kids {front middle back : List (Nat × Ref (h + 1))} {block : Nat} :
    block ∉ kids h (front ++ middle ++ back) ↔
      block ∉ kids h front ∧ block ∉ kids h middle ∧ block ∉ kids h back := by
  rw [mem_kids_append, mem_kids_append, not_or, not_or, and_assoc]

/-- The keys of the entries do not matter. -/
theorem kids_relabel {entries others : List (Nat × Ref (h + 1))}
    (same : others.map Prod.snd = entries.map Prod.snd) : kids h others = kids h entries := by
  have through : ∀ list : List (Nat × Ref (h + 1)),
      kids h list = (list.map Prod.snd).flatMap (blocks h) := fun list => by
    simp [kids, List.flatMap_map]
  rw [through, through, same]

/-- The blocks below a single entry. -/
theorem kids_single (key : Nat) (child : Placed h) : kids h [(key, child)] = blocks h child := by
  simp [kids]

end Placed

/-- What a call on some blocks of a holder leaves alone: the other blocks stay held
and keep their bytes, and blocks that come in were not held before. -/
structure Confined (held later : Set Nat) (db after : Db ρ) (region next : List Nat) : Prop where
  kept : ∀ block ∈ held, block ∉ region → block ∈ later ∧ after.data block = db.data block
  fresh : ∀ block ∈ next, block ∈ region ∨ block ∉ held

namespace Confined

variable {held middle later : Set Nat} {db between after : Db ρ} {region next last : List Nat}

/-- Nothing has happened yet. -/
theorem refl (held : Set Nat) (db : Db ρ) (region : List Nat) :
    Confined held held db db region region :=
  ⟨fun _ member _ => ⟨member, rfl⟩, fun _ member => .inl member⟩

/-- Two changes confined to the tree, one after the other. -/
theorem trans (first : Confined held middle db between region next)
    (second : Confined middle later between after next last) :
    Confined held later db after region last := by
  constructor
  · intro block member outside
    obtain ⟨still, same⟩ := first.kept block member outside
    have apart : block ∉ next := fun inside =>
      (first.fresh block inside).elim outside fun absent => absent member
    obtain ⟨stays, equal⟩ := second.kept block still apart
    exact ⟨stays, equal.trans same⟩
  · intro block inside
    by_cases old : block ∈ region
    · exact .inl old
    · refine .inr fun member => ?_
      obtain ⟨still, _⟩ := first.kept block member old
      rcases second.fresh block inside with came | absent
      · exact (first.fresh block came).elim old fun absent => absent member
      · exact absent still

/-- Writing to a block of the region. -/
theorem write {block : Nat} (inside : block ∈ region) (image : Image) :
    Confined held held db (db.write block image) region region :=
  ⟨fun _ member outside => ⟨member, Db.write_data_of_ne fun same => outside (same ▸ inside)⟩,
    fun _ member => .inl member⟩

/-- Blocks around the region belong to a larger region that keeps them. -/
theorem widen {wide wideNext : List Nat} (confined : Confined held later db after region next)
    (larger : ∀ block ∈ region, block ∈ wide)
    (grown : ∀ block ∈ wideNext, block ∈ wide ∨ block ∈ next) :
    Confined held later db after wide wideNext := by
  constructor
  · exact fun block member outside =>
      confined.kept block member fun inside => outside (larger block inside)
  · intro block inside
    rcases grown block inside with here | came
    · exact .inl here
    · exact (confined.fresh block came).imp (larger block) id

end Confined

/-- Children stored in distinct blocks of the holder. -/
structure Grove (held : Set Nat) (db : Db ρ) (h : Nat)
    (entries : List (Nat × Ref (h + 1))) : Prop where
  stored : ∀ entry ∈ entries, Placed.Stored db h entry.2
  distinct : (Placed.kids h entries).Nodup
  mine : ∀ block ∈ Placed.kids h entries, block ∈ held

namespace Grove

open Placed

variable {held later : Set Nat} {db after : Db ρ} {h : Nat}
  {front middle next back : List (Nat × Ref (h + 1))}

/-- A node is its root block above a grove. -/
theorem held_iff {node : Placed (h + 1)} :
    Held held db (h + 1) node ↔
      NodeAt (db.data node.block) (h + 1) node.row ∧ node.block ∈ held ∧
        node.block ∉ kids h node.entries ∧ Grove held db h node.entries := by
  constructor
  · rintro ⟨⟨nodeAt, below⟩, distinct, mine⟩
    rw [blocks, List.nodup_cons] at distinct
    exact ⟨nodeAt, mine _ (block_mem node), distinct.1, below, distinct.2,
      fun block inside => mine block (List.mem_cons_of_mem _ inside)⟩
  · rintro ⟨nodeAt, rootMine, apart, below, distinct, mine⟩
    refine ⟨⟨nodeAt, below⟩, List.nodup_cons.mpr ⟨apart, distinct⟩, ?_⟩
    intro block inside
    rcases List.mem_cons.mp inside with rfl | under
    · exact rootMine
    · exact mine block under

/-- One child is a grove. -/
theorem single {key : Nat} {child : Placed h} :
    Grove held db h [(key, child)] ↔ Held held db h child := by
  constructor
  · rintro ⟨stored, distinct, mine⟩
    rw [kids_single] at distinct mine
    exact ⟨stored _ List.mem_cons_self, distinct, mine⟩
  · rintro ⟨stored, distinct, mine⟩
    refine ⟨?_, ?_, ?_⟩
    · intro entry member
      rw [List.mem_singleton] at member
      subst member
      exact stored
    · rw [kids_single]
      exact distinct
    · rw [kids_single]
      exact mine

/-- Groves on distinct blocks, side by side. -/
theorem append {left right : List (Nat × Ref (h + 1))} :
    Grove held db h (left ++ right) ↔ Grove held db h left ∧ Grove held db h right ∧
      ∀ block ∈ kids h left, block ∉ kids h right := by
  constructor
  · rintro ⟨stored, distinct, mine⟩
    rw [kids_append, List.nodup_append] at distinct
    rw [kids_append] at mine
    refine ⟨⟨fun entry member => stored entry (List.mem_append_left _ member), distinct.1,
      fun block inside => mine block (List.mem_append_left _ inside)⟩,
      ⟨fun entry member => stored entry (List.mem_append_right _ member), distinct.2.1,
      fun block inside => mine block (List.mem_append_right _ inside)⟩, ?_⟩
    exact fun block inside other => distinct.2.2 block inside block other rfl
  · rintro ⟨first, second, apart⟩
    refine ⟨?_, ?_, ?_⟩
    · intro entry member
      rcases List.mem_append.mp member with inLeft | inRight
      · exact first.stored entry inLeft
      · exact second.stored entry inRight
    · rw [kids_append, List.nodup_append]
      refine ⟨first.distinct, second.distinct, ?_⟩
      rintro block inside _ inRight rfl
      exact apart block inside inRight
    · intro block inside
      rw [kids_append] at inside
      rcases List.mem_append.mp inside with inLeft | inRight
      · exact first.mine block inLeft
      · exact second.mine block inRight

/-- A call confined to other blocks keeps a grove. -/
theorem outside {region nextRegion : List Nat} (grove : Grove held db h middle)
    (confined : Confined held later db after region nextRegion)
    (apart : ∀ block ∈ kids h middle, block ∉ region) : Grove later after h middle := by
  refine ⟨fun entry member => (grove.stored entry member).congr fun block inside => ?_,
    grove.distinct, fun block inside => (confined.kept block (grove.mine block inside)
      (apart block inside)).1⟩
  have under := mem_kids.mpr ⟨entry, member, inside⟩
  exact (confined.kept block (grove.mine block under) (apart block under)).2

/-- Some children of a grove replaced by a call confined to them and `extra`. -/
theorem replace {extra : List Nat} (grove : Grove held db h (front ++ middle ++ back))
    (confined : Confined held later db after (extra ++ kids h middle) (extra ++ kids h next))
    (apart : ∀ block ∈ extra, block ∉ kids h (front ++ middle ++ back))
    (replaced : Grove later after h next) : Grove later after h (front ++ next ++ back) := by
  obtain ⟨both, backGrove, backApart⟩ := append.mp grove
  obtain ⟨frontGrove, middleGrove, frontApart⟩ := append.mp both
  have frontRegion : ∀ block ∈ kids h front, block ∉ extra ++ kids h middle := by
    intro block inFront inside
    rcases List.mem_append.mp inside with inExtra | inMiddle
    · exact (not_mem_kids.mp (apart block inExtra)).1 inFront
    · exact frontApart block inFront inMiddle
  have backRegion : ∀ block ∈ kids h back, block ∉ extra ++ kids h middle := by
    intro block inBack inside
    rcases List.mem_append.mp inside with inExtra | inMiddle
    · exact (not_mem_kids.mp (apart block inExtra)).2.2 inBack
    · exact backApart block (mem_kids_append.mpr (.inr inMiddle)) inBack
  refine append.mpr ⟨append.mpr ⟨frontGrove.outside confined frontRegion, replaced, ?_⟩,
    backGrove.outside confined backRegion, ?_⟩
  · intro block inFront inNext
    rcases confined.fresh block (List.mem_append_right _ inNext) with inside | absent
    · exact frontRegion block inFront inside
    · exact absent (frontGrove.mine block inFront)
  · intro block inside inBack
    rw [kids_append] at inside
    rcases List.mem_append.mp inside with inFront | inNext
    · exact backApart block (mem_kids_append.mpr (.inl inFront)) inBack
    · rcases confined.fresh block (List.mem_append_right _ inNext) with inside | absent
      · exact backRegion block inBack inside
      · exact absent (backGrove.mine block inBack)

end Grove

/-- Cutting a node in two: its block keeps the first entries, a new block takes the
others. Only these two and `root` have been written. -/
theorem Placed.Held.cut {held : Set Nat} {db after : Db ρ} {h new root split : Nat}
    {node : Placed h}
    (heldNode : Placed.Held held db h node) (fresh : new ∉ held)
    (rootApart : root ∉ Placed.blocks h node)
    (lowAt : NodeAt (after.data node.block) h (Placed.rows h (node.entries.take split)))
    (highAt : NodeAt (after.data new) h (Placed.rows h (node.entries.drop split)))
    (same : ∀ other ∈ held, other ≠ root → other ≠ node.block → after.data other = db.data other)
    (left right : Nat) :
    Grove (insert new held) after h [(left, ⟨node.block, node.entries.take split⟩),
        (right, ⟨new, node.entries.drop split⟩)] ∧
      Confined held (insert new held) db after (root :: Placed.blocks h node)
        (root :: Placed.kids h [(left, ⟨node.block, node.entries.take split⟩),
          (right, ⟨new, node.entries.drop split⟩)]) ∧
      ∀ block ∈ Placed.kids h [(left, ⟨node.block, node.entries.take split⟩),
        (right, ⟨new, node.entries.drop split⟩)], block = new ∨ block ∈ Placed.blocks h node := by
  obtain ⟨stored, distinct, mine⟩ := heldNode
  rw [Placed.blocks_eq] at distinct mine
  rw [List.nodup_cons] at distinct
  have parts := Placed.below_cut node node.block new split
  have kids : Placed.kids h [(left, ⟨node.block, node.entries.take split⟩),
      (right, ⟨new, node.entries.drop split⟩)] =
      node.block :: Placed.below h (⟨node.block, node.entries.take split⟩ : Placed h) ++
        new :: Placed.below h (⟨new, node.entries.drop split⟩ : Placed h) := by
    simp [Placed.kids, Placed.blocks_eq]
  have perm : (node.block :: Placed.below h (⟨node.block, node.entries.take split⟩ : Placed h) ++
      new :: Placed.below h (⟨new, node.entries.drop split⟩ : Placed h)).Perm
      (new :: node.block :: Placed.below h node) := by
    rw [← parts]
    exact List.perm_middle
  have members : ∀ block, block ∈ Placed.kids h [(left, ⟨node.block, node.entries.take split⟩),
      (right, ⟨new, node.entries.drop split⟩)] ↔ block = new ∨ block ∈ Placed.blocks h node := by
    intro block
    rw [kids, perm.mem_iff, Placed.blocks_eq, List.mem_cons]
  have belowSame : ∀ block ∈ Placed.below h node, after.data block = db.data block := by
    intro block inside
    have under : block ∈ Placed.blocks h node := by
      rw [Placed.blocks_eq]
      exact List.mem_cons_of_mem _ inside
    refine same block (mine block (List.mem_cons_of_mem _ inside)) ?_ ?_
    · rintro rfl
      exact rootApart under
    · rintro rfl
      exact distinct.1 inside
  have storedPart : ∀ (block : Nat) (entries : List (Nat × Ref h)),
      NodeAt (after.data block) h (Placed.rows h entries) →
      (∀ entry ∈ entries, entry ∈ node.entries) →
      Placed.Stored after h (⟨block, entries⟩ : Placed h) := by
    intro block entries nodeAt subset
    cases h with
    | zero => exact nodeAt
    | succ h =>
        refine ⟨nodeAt, fun entry member => (stored.2 entry (subset entry member)).congr ?_⟩
        intro other inside
        exact belowSame other (List.mem_flatMap.mpr ⟨entry, subset entry member, inside⟩)
  refine ⟨⟨?_, ?_, ?_⟩, ⟨?_, ?_⟩, fun block inside => (members block).mp inside⟩
  · intro entry member
    rcases List.mem_cons.mp member with rfl | member
    · exact storedPart _ _ lowAt fun _ => List.mem_of_mem_take
    · rw [List.mem_singleton] at member
      subst member
      exact storedPart _ _ highAt fun _ => List.mem_of_mem_drop
  · rw [kids, perm.nodup_iff, List.nodup_cons, List.nodup_cons]
    exact ⟨fun inside => fresh (mine new inside), distinct⟩
  · intro block inside
    rcases (members block).mp inside with rfl | old
    · exact Set.mem_insert _ _
    · rw [Placed.blocks_eq] at old
      exact Set.mem_insert_of_mem _ (mine block old)
  · intro block member outside
    rw [List.mem_cons, not_or] at outside
    refine ⟨Set.mem_insert_of_mem _ member, same block member outside.1 ?_⟩
    rintro rfl
    exact outside.2 (Placed.block_mem node)
  · intro block inside
    rcases List.mem_cons.mp inside with rfl | under
    · exact .inl List.mem_cons_self
    · rcases (members block).mp under with rfl | old
      · exact .inr fresh
      · exact .inl (List.mem_cons_of_mem _ old)

/-- A root block above a grove. -/
structure Trunk (held : Set Nat) (db : Db ρ) (h root : Nat)
    (entries : List (Nat × Ref (h + 1))) : Prop where
  mine : root ∈ held
  apart : root ∉ Placed.kids h entries
  grove : Grove held db h entries

namespace Trunk

open Placed

variable {held later : Set Nat} {db after : Db ρ} {h root : Nat}
  {front middle next back : List (Nat × Ref (h + 1))}

/-- A held tree is a trunk and the row in its root. -/
theorem of_held {node : Placed (h + 1)} (heldNode : Held held db (h + 1) node) :
    Trunk held db h node.block node.entries := by
  obtain ⟨_, mine, apart, grove⟩ := Grove.held_iff.mp heldNode
  exact ⟨mine, apart, grove⟩

/-- A trunk and the row in its root are a held tree. -/
theorem toHeld {entries : List (Nat × Ref (h + 1))} (trunk : Trunk held db h root entries)
    (nodeAt : NodeAt (db.data root) (h + 1) (rows (h + 1) entries)) :
    Held held db (h + 1) (⟨root, entries⟩ : Placed (h + 1)) :=
  Grove.held_iff.mpr ⟨nodeAt, trunk.mine, trunk.apart, trunk.grove⟩

/-- Writing to the root leaves the children alone. -/
theorem write {entries : List (Nat × Ref (h + 1))} (trunk : Trunk held db h root entries)
    (image : Image) : Trunk held (db.write root image) h root entries := by
  refine ⟨trunk.mine, trunk.apart,
    trunk.grove.outside (Confined.write (List.mem_singleton.mpr rfl) image)
      fun block inside same => ?_⟩
  rw [List.mem_singleton] at same
  exact trunk.apart (same ▸ inside)

/-- Some children replaced by a call that may also write to the root. -/
theorem replace (trunk : Trunk held db h root (front ++ middle ++ back))
    (confined : Confined held later db after (root :: kids h middle) (root :: kids h next))
    (mine : root ∈ later) (apart : root ∉ kids h next) (replaced : Grove later after h next) :
    Trunk later after h root (front ++ next ++ back) := by
  have outer := not_mem_kids.mp trunk.apart
  refine ⟨mine, ?_,
    Grove.replace trunk.grove (show Confined held later db after ([root] ++ kids h middle)
    ([root] ++ kids h next) from confined) ?_ replaced⟩
  · exact not_mem_kids.mpr ⟨outer.1, apart, outer.2.2⟩
  · intro block inside
    rw [List.mem_singleton.mp inside]
    exact trunk.apart

/-- Some children replaced by a call confined to them: the root keeps its bytes. -/
theorem descend (trunk : Trunk held db h root (front ++ middle ++ back))
    (confined : Confined held later db after (kids h middle) (kids h next))
    (replaced : Grove later after h next) :
    Trunk later after h root (front ++ next ++ back) ∧ after.data root = db.data root := by
  have outer := not_mem_kids.mp trunk.apart
  obtain ⟨mine, same⟩ := confined.kept root trunk.mine outer.2.1
  refine ⟨trunk.replace ?_ mine ?_ replaced, same⟩
  · refine confined.widen (fun block inside => List.mem_cons_of_mem _ inside) ?_
    intro block inside
    rcases List.mem_cons.mp inside with rfl | came
    · exact .inl List.mem_cons_self
    · exact .inr came
  · intro inside
    rcases confined.fresh root inside with inMiddle | absent
    · exact outer.2.1 inMiddle
    · exact absent trunk.mine

/-- The keys of the entries do not matter. -/
theorem relabel {entries others : List (Nat × Ref (h + 1))} (trunk : Trunk held db h root entries)
    (same : others.map Prod.snd = entries.map Prod.snd) : Trunk held db h root others := by
  have kidsSame := kids_relabel same
  obtain ⟨mine, apart, stored, distinct, inside⟩ := trunk
  refine ⟨mine, by rwa [kidsSame], ⟨fun entry member => ?_, by rwa [kidsSame], by rwa [kidsSame]⟩⟩
  have second : entry.2 ∈ entries.map Prod.snd := same ▸ List.mem_map_of_mem member
  obtain ⟨other, otherMember, equal⟩ := List.mem_map.mp second
  exact equal ▸ stored other otherMember

/-- One child of a trunk. -/
theorem child {key : Nat} {child : Placed h}
    (trunk : Trunk held db h root (front ++ [(key, child)] ++ back)) : Held held db h child :=
  Grove.single.mp (Grove.append.mp (Grove.append.mp trunk.grove).1).2.1

/-- A call confined to the root and some children, seen from the whole node. -/
theorem confinedRoot
    (call : Confined held later db after (root :: kids h middle) (root :: kids h next)) :
    Confined held later db after (root :: kids h (front ++ middle ++ back))
      (root :: kids h (front ++ next ++ back)) := by
  refine call.widen (fun block inside => ?_) fun block inside => ?_
  · rcases List.mem_cons.mp inside with rfl | under
    · exact List.mem_cons_self
    · refine List.mem_cons_of_mem _ ?_
      rw [mem_kids_append, mem_kids_append]
      exact .inl (.inr under)
  · rcases List.mem_cons.mp inside with rfl | under
    · exact .inl List.mem_cons_self
    · rw [mem_kids_append, mem_kids_append] at under
      rw [List.mem_cons, List.mem_cons, mem_kids_append, mem_kids_append]
      rcases under with (inFront | inNext) | inBack
      · exact .inl (.inr (.inl (.inl inFront)))
      · exact .inr (.inr inNext)
      · exact .inl (.inr (.inr inBack))

/-- A call confined to some children, seen from the whole node. -/
theorem confined (call : Confined held later db after (kids h middle) (kids h next)) (root : Nat) :
    Confined held later db after (root :: kids h (front ++ middle ++ back))
      (root :: kids h (front ++ next ++ back)) := by
  refine confinedRoot (call.widen (fun block inside => List.mem_cons_of_mem _ inside) ?_)
  intro block inside
  rcases List.mem_cons.mp inside with rfl | under
  · exact .inl List.mem_cons_self
  · exact .inr under

/-- One child replaced by a call confined to it. -/
theorem replaceChild {key : Nat} {child changed : Placed h}
    (trunk : Trunk held db h root (front ++ [(key, child)] ++ back)) (other : Nat)
    (call : Confined held later db after (blocks h child) (blocks h changed))
    (heldChild : Held later after h changed) :
    Trunk later after h root (front ++ [(other, changed)] ++ back) ∧
      after.data root = db.data root ∧
      Confined held later db after (root :: kids h (front ++ [(key, child)] ++ back))
        (root :: kids h (front ++ [(other, changed)] ++ back)) := by
  rw [← kids_single key child, ← kids_single other changed] at call
  obtain ⟨replaced, same⟩ := trunk.descend call (Grove.single.mpr heldChild)
  exact ⟨replaced, same, Trunk.confined call root⟩

end Trunk

/-- The root of a tree exchanged for a block with its bytes, which may be the same one. -/
theorem Placed.Held.exchange {held : Set Nat} {db after : Db ρ} {h result : Nat} {node : Placed h}
    (heldNode : Placed.Held held db h node) (fresh : result = node.block ∨ result ∉ held)
    (copied : after.data result = db.data node.block)
    (same : ∀ other ∈ held, after.data other = db.data other) :
    Placed.Held (insert result (held \ {node.block})) after h (⟨result, node.entries⟩ : Placed h) ∧
      Confined held (insert result (held \ {node.block})) db after (Placed.blocks h node)
        (Placed.blocks h (⟨result, node.entries⟩ : Placed h)) := by
  obtain ⟨stored, distinct, mine⟩ := heldNode
  have belowEq : Placed.below h (⟨result, node.entries⟩ : Placed h) = Placed.below h node := by
    cases h <;> rfl
  rw [Placed.blocks_eq, List.nodup_cons] at distinct
  have belowHeld : ∀ block ∈ Placed.below h node, block ∈ held := fun block inside =>
    mine block (by rw [Placed.blocks_eq]; exact List.mem_cons_of_mem _ inside)
  have belowApart : ∀ block ∈ Placed.below h node, block ≠ node.block := fun block inside equal =>
    distinct.1 (equal ▸ inside)
  have resultApart : result ∉ Placed.below h node := by
    rcases fresh with rfl | absent
    · exact distinct.1
    · exact fun inside => absent (belowHeld result inside)
  refine ⟨⟨?_, ?_, ?_⟩, ?_, ?_⟩
  · cases h with
    | zero =>
        change NodeAt (after.data result) 0 node.row
        rw [copied]
        exact stored
    | succ h =>
        refine ⟨?_, fun entry member => (stored.2 entry member).congr fun block inside => ?_⟩
        · change NodeAt (after.data result) (h + 1) node.row
          rw [copied]
          exact stored.1
        · exact same block (belowHeld block (List.mem_flatMap.mpr ⟨entry, member, inside⟩))
  · rw [Placed.blocks_eq, belowEq, List.nodup_cons]
    exact ⟨resultApart, distinct.2⟩
  · intro block inside
    rw [Placed.blocks_eq, belowEq] at inside
    rcases List.mem_cons.mp inside with rfl | under
    · exact Set.mem_insert _ _
    · exact Set.mem_insert_of_mem _ ⟨belowHeld block under, belowApart block under⟩
  · intro block member outside
    rw [Placed.blocks_eq, List.mem_cons, not_or] at outside
    exact ⟨Set.mem_insert_of_mem _ ⟨member, outside.1⟩, same block member⟩
  · intro block inside
    rw [Placed.blocks_eq, belowEq] at inside
    rw [Placed.blocks_eq]
    rcases List.mem_cons.mp inside with rfl | under
    · exact fresh.imp (fun equal => by rw [equal]; exact List.mem_cons_self) id
    · exact .inl (List.mem_cons_of_mem _ under)

/-- `edb_modify_block` on the root of a tree. -/
theorem HolderContract.modifyNode {api : BlockApi (Db ρ)} (contract : HolderContract api)
    {held : Set Nat} {answers : List Int} {db : Db ρ} {h : Nat} {node : Placed h}
    (valid : contract.Valid held (0 :: answers) db) (heldNode : Placed.Held held db h node) :
    ∃ result later after, api.modify node.block db = .ok result after ∧
      contract.Valid later answers after ∧
      Placed.Held later after h (⟨result, node.entries⟩ : Placed h) ∧
      Confined held later db after (Placed.blocks h node)
        (Placed.blocks h (⟨result, node.entries⟩ : Placed h)) := by
  obtain ⟨result, after, ran, fresh, validAfter, copied, same⟩ :=
    contract.modify valid (heldNode.mine _ (Placed.block_mem node))
  exact ⟨result, _, after, ran, validAfter, heldNode.exchange fresh copied same⟩

end EverDb
