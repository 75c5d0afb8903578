import EverDb.Btree.Grow
import EverDb.Foundation.BPlus.Load

/-!
# Filling a tree

A client makes a tree by setting one key after another, and grows the tree when
`btree_set` reports it full. Keys that extend the stored ones on either side, and new
values for stored keys, never meet the misplaced cut of `btree_set`, so that such a
client gets a map.
-/

namespace EverDb

open Foundation BPlus

variable {ρ : Type} {api : BlockApi (Db ρ)} {db : Db ρ} {h depth root k value calls : Nat}
  {held : Set Nat}
  {node : Placed h} {newest bindings : List (Nat × Nat)}

/-- Set a key, and grow a full tree first. -/
def btreePut (api : BlockApi (Db ρ)) (depth root k value : Nat) : Code (Db ρ) Nat := do
  let code ← (btreeSet api depth root k value).attempt
  if code = 0 then pure root
  else if code = edbErrorBtreeFull then do
    let grown ← btreeGrow api root root
    if grown.1 ≠ 0 then .fail grown.1
    else do
      btreeSet api depth grown.2 k value
      pure grown.2
  else .fail code

/-- Put bindings one after another. -/
def btreeLoad (api : BlockApi (Db ρ)) (depth : Nat) : List (Nat × Nat) → Nat → Code (Db ρ) Nat
  | [], root => pure root
  | (k, value) :: rest, root => do
      let root ← btreePut api depth root k value
      btreeLoad api depth rest root

/-- Make a tree in the block `root` and load it. -/
def btreeBuild (api : BlockApi (Db ρ)) (depth root : Nat) (bindings : List (Nat × Nat)) :
    Code (Db ρ) Nat := do
  btreeInit root
  btreeLoad api depth bindings root

/-- Each key is among those before it, or below or above all of them. -/
def LoadOrder : List (Nat × Nat) → List Nat → Prop
  | [], _ => True
  | (k, _) :: rest, known => Outward k known ∧ LoadOrder rest (k :: known)

/-- The order of a load can be checked. -/
instance LoadOrder.decidable : (bindings : List (Nat × Nat)) → (known : List Nat) →
    Decidable (LoadOrder bindings known)
  | [], _ => .isTrue trivial
  | (k, _) :: rest, known =>
      have := LoadOrder.decidable rest (k :: known)
      inferInstanceAs (Decidable (Outward k known ∧ LoadOrder rest (k :: known)))

/-- A tree that `newest` has been loaded into, the last binding first. -/
structure Binds (h : Nat) (tree : BPlus Nat Nat h) (newest : List (Nat × Nat)) : Prop where
  loaded : Loaded edbBtreeSize edbBtreeSplit h tree
  pairs : ∀ k value, (k, value) ∈ BPlus.pairs h tree ↔ newest.lookup k = some value
  small : ∀ binding ∈ newest, binding.1 < 4294967296

namespace Binds

variable {tree : BPlus Nat Nat h}

/-- The keys stored are those that were bound. -/
theorem mem_leafKeys (binds : Binds h tree newest) : k ∈ leafKeys h tree ↔
    k ∈ newest.map Prod.fst := by
  rw [BPlus.mem_leafKeys]
  simp only [binds.pairs]
  rw [← Option.isSome_iff_exists, List.lookup_isSome_iff]
  simp

/-- Every tree of 32 bit keys that is made so has at most five levels. -/
theorem height_le (binds : Binds h tree newest) : h ≤ 4 := by
  by_contra tall
  have most : (BPlus.pairs h tree).length ≤ 4294967296 := by
    refine pairs_length_le binds.loaded.ordered.searchable fun key member => ?_
    obtain ⟨binding, inside, rfl⟩ := List.mem_map.mp (binds.mem_leafKeys.mp member)
    exact binds.small binding inside
  have many := binds.loaded.pow_le (by omega)
  have least : edbBtreeSplit ^ 5 ≤ edbBtreeSplit ^ h := Nat.pow_le_pow_right (by decide) (by omega)
  have five : edbBtreeSplit ^ 5 = 33038369407 := by decide
  omega

/-- The tree behind a load is well formed. -/
theorem wellFormed (binds : Binds h tree newest) : WellFormed keys h tree :=
  ⟨binds.loaded.ordered, binds.loaded.capped, binds.loaded.filled (by decide)⟩

/-- One more binding. -/
theorem set (binds : Binds h tree newest) (outward : Outward k (newest.map Prod.fst))
    (keyBounded : k < 4294967296) (room : pathFull edbBtreeSize h tree k = false) (value : Nat) :
    Binds h (BPlus.set edbBtreeSize edbBtreeSplit h tree k value) ((k, value) :: newest) := by
  refine ⟨binds.loaded.set (by decide) (outward.congr fun key => binds.mem_leafKeys) room value,
    fun key other => ?_,
    List.forall_mem_cons.mpr ⟨keyBounded, binds.small⟩⟩
  rw [mem_pairs_set (by decide) binds.loaded.ordered.searchable binds.wellFormed.filled,
    List.lookup_cons]
  by_cases same : key = k
  · simp [same, eq_comm]
  · have apart : (key == k) = false := beq_eq_false_iff_ne.mpr same
    simp [same, apart, binds.pairs]

/-- The same bindings over a new root. -/
theorem grow (binds : Binds h tree newest) (full : tree.length = edbBtreeSize) :
    Binds (h + 1) (BPlus.grow 0 tree) newest :=
  ⟨binds.loaded.grow (by decide) full 0,
    fun key value => by rw [pairs_grow]; exact binds.pairs key value, binds.small⟩

/-- `btree_get` on such a tree. -/
theorem btreeGet (binds : Binds h (Placed.tree h node) newest) (stored : Placed.Stored db h node)
    (deep : 4 < depth) :
    EverDb.btreeGet db depth node.block k = some (getAnswer (newest.lookup k)) := by
  have bounded := binds.loaded.ordered.searchable
  rw [btreeGet_eq stored bounded (Nat.lt_of_le_of_lt binds.height_le deep)]
  congr 2
  ext value
  rw [get_eq_some bounded, binds.pairs]

end Binds

/-- A tree of a holder that can be loaded on. -/
structure Loading (contract : HolderContract api) (held : Set Nat) (calls : Nat)
    (db : Db ρ) (root : Nat) (newest : List (Nat × Nat)) (h : Nat) (node : Placed h) : Prop where
  valid : contract.Valid held (zeros calls) db
  place : node.block = root
  heldNode : Placed.Held held db h node
  binds : Binds h (Placed.tree h node) newest

/-- How many block calls a put makes at most. -/
def putCost : Nat := 64

/-- A set into a tree of at most five levels makes at most 30 block calls. -/
theorem setCost_le (low : h ≤ 4) : setCost h ≤ 30 := by
  match h, low with
  | 0, _ | 1, _ | 2, _ | 3, _ | 4, _ => decide

namespace Loading

variable {contract : HolderContract api}

/-- `btree_set` on such a tree. -/
theorem set (loading : Loading contract held calls db root newest h node)
    (outward : Outward k (newest.map Prod.fst))
    (keyBounded : k < 4294967296) (valueBounded : value < 4294967296) (deep : 4 < depth)
    (enough : setCost h ≤ calls) :
    (pathFull edbBtreeSize h (Placed.tree h node) k = true ∧
      ∃ after later rest next, btreeSet api depth root k value db = .error edbErrorBtreeFull after ∧
        calls ≤ rest + setCost h ∧ Loading contract later rest after root newest h next ∧
        Placed.tree h next = Placed.tree h node ∧
        Confined held later db after (Placed.blocks h node) (Placed.blocks h next)) ∨
    (pathFull edbBtreeSize h (Placed.tree h node) k = false ∧
      ∃ after later rest next, btreeSet api depth root k value db = .ok () after ∧
        calls ≤ rest + setCost h ∧
        Loading contract later rest after root ((k, value) :: newest) h next ∧
        Confined held later db after (Placed.blocks h node) (Placed.blocks h next)) := by
  obtain ⟨valid, rfl, heldNode, binds⟩ := loading
  obtain ⟨ordered, sized, filled⟩ := binds.wellFormed
  rcases btreeSet_run contract keyBounded valueBounded valid heldNode
    ordered.searchable sized filled
    (Nat.lt_of_le_of_lt binds.height_le deep) enough with
    ⟨full, after, ran, later, rest, next, validNext, spent, place, tree, heldNext, confined⟩ |
    ⟨room, after, ran, later, rest, next, validNext, spent, place, tree, heldNext, confined⟩
  · exact .inl ⟨full, after, later, rest, next, ran, spent,
      ⟨validNext, place, heldNext, tree ▸ binds⟩, tree, confined⟩
  · refine .inr ⟨room, after, later, rest, next, ran, spent,
      ⟨validNext, place, heldNext, ?_⟩, confined⟩
    rw [tree]
    exact binds.set outward keyBounded room value

/-- A put succeeds and adds its binding. -/
theorem put (loading : Loading contract held calls db root newest h node)
    (outward : Outward k (newest.map Prod.fst))
    (keyBounded : k < 4294967296) (valueBounded : value < 4294967296) (deep : 4 < depth)
    (enough : putCost ≤ calls) :
    ∃ grown after later rest tall next, btreePut api depth root k value db = .ok grown after ∧
    calls ≤ rest + putCost ∧
      Loading contract later rest after grown ((k, value) :: newest) tall next ∧
      Confined held later db after (Placed.blocks h node) (Placed.blocks tall next) := by
  have cost := setCost_le loading.binds.height_le
  unfold putCost at enough ⊢
  unfold btreePut
  rcases loading.set outward keyBounded valueBounded deep (by omega) with
    ⟨full, middle, later, rest, next, ran, spent, loaded, tree, confined⟩ |
    ⟨_, after, later, rest, next, ran, spent, loaded, confined⟩
  · -- the root is full, and the key fits under the new root
    rw [Code.bind_ok (Code.attempt_error ran), if_neg (by decide), if_pos rfl]
    have width : (Placed.tree h next).length = edbBtreeSize := by
      rw [tree]
      exact pathFull_length full
    have entries : next.entries.length = edbBtreeSize := by rw [← Placed.tree_length, width]
    obtain ⟨spare, rfl⟩ : ∃ spare, rest = spare + 3 := ⟨rest - 3, by omega⟩
    have granted : contract.Valid later (0 :: 0 :: 0 :: zeros spare) middle := loaded.valid
    obtain ⟨grown, opened, own, tall, grew, validTall, heldTall, placeTall,
        treeTall, confinedTall⟩ :=
      btreeGrow_run contract granted loaded.heldNode (by rw [entries]; decide)
        (Nat.le_of_eq entries)
    have bindsTall : Binds (h + 1) (Placed.tree (h + 1) tall) newest := by
      rw [treeTall]
      exact loaded.binds.grow width
    have loadingTall : Loading contract own spare opened grown newest (h + 1) tall :=
      ⟨validTall, placeTall, heldTall, bindsTall⟩
    have costTall := setCost_le bindsTall.height_le
    rw [loaded.place] at grew
    rw [Code.bind_ok grew, if_neg (not_not.mpr rfl)]
    rcases loadingTall.set outward keyBounded valueBounded deep (by omega) with
      ⟨impossible, _⟩ | ⟨_, after, final, left, last, ranTall, spentTall, done, confinedLast⟩
    · have two : (Placed.tree (h + 1) tall).length ≠ edbBtreeSize := by
        rw [treeTall]
        exact show 2 ≠ edbBtreeSize by decide
      rw [not_pathFull_of_length two] at impossible
      cases impossible
    · rw [Code.bind_ok ranTall]
      exact ⟨grown, after, final, left, h + 1, last, rfl, by omega, done,
        confined.trans (confinedTall.trans confinedLast)⟩
  · rw [Code.bind_ok (Code.attempt_ok ran), if_pos rfl]
    exact ⟨root, after, later, rest, h, next, rfl, by omega, loaded, confined⟩

/-- A whole load. -/
theorem load (loading : Loading contract held calls db root newest h node) (deep : 4 < depth)
    (bindings : List (Nat × Nat))
    (small : ∀ binding ∈ bindings, binding.1 < 4294967296 ∧ binding.2 < 4294967296)
    (order : LoadOrder bindings (newest.map Prod.fst))
    (enough : putCost * bindings.length ≤ calls) :
    ∃ last after later rest tall next, btreeLoad api depth bindings root db = .ok last after ∧
      Loading contract later rest after last (bindings.reverse ++ newest) tall next ∧
      Confined held later db after (Placed.blocks h node) (Placed.blocks tall next) := by
  induction bindings generalizing held calls db root newest h node with
  | nil => exact ⟨root, db, held, calls, h, node, rfl, loading, Confined.refl held db _⟩
  | cons binding bindings ih =>
      obtain ⟨k, value⟩ := binding
      obtain ⟨⟨keyBounded, valueBounded⟩, small⟩ := List.forall_mem_cons.mp small
      rw [List.length_cons, Nat.mul_succ] at enough
      obtain ⟨grown, middle, own, rest, tall, next, ran, spent, loaded, confined⟩ :=
        loading.put order.1 keyBounded valueBounded deep (by omega)
      obtain ⟨last, after, later, left, high, final, ranRest, done, confinedRest⟩ :=
        ih loaded small order.2 (by omega)
      refine ⟨last, after, later, left, high, final, ?_, ?_, confined.trans confinedRest⟩
      · unfold btreeLoad
        rw [Code.bind_ok ran]
        exact ranRest
      · rwa [List.reverse_cons, List.append_assoc]

/-- A new tree is an empty leaf. -/
theorem init {contract : HolderContract api} (valid : contract.Valid held (zeros calls) db)
    (mine : root ∈ held) :
    btreeInit root db = .ok () (db.write root btreeInitImage) ∧
      Loading contract held calls (db.write root btreeInitImage) root [] 0 ⟨root, []⟩ := by
  refine ⟨rfl, contract.write valid mine _, rfl, ⟨?_, List.nodup_singleton root, ?_⟩,
    ⟨.empty, ?_, ?_⟩⟩
  · have magic : Bt.magic btreeInitImage = edbMagicBtreeLeaf := by
      unfold btreeInitImage
      rw [Bt.magic_setSelfSize]
      exact Bt.magic_setMagic (by decide)
    rw [Placed.Stored, Db.write_data_self]
    exact ⟨magic, Bt.entries_eq (Bt.selfSize_setSelfSize (by decide)) fun i inside =>
      absurd inside (Nat.not_lt_zero i)⟩
  · intro block inside
    rw [List.mem_singleton.mp inside]
    exact mine
  · exact fun key value => by simp [Placed.tree, BPlus.pairs]
  · exact fun binding member => by cases member

end Loading

/-- What a load leaves: a well-formed tree of at most five levels whose nodes below the
root are at least a quarter full, with the newest binding of every key. -/
structure BuiltTree (after : Db ρ) (depth root : Nat) (bindings : List (Nat × Nat)) : Prop where
  tree : ∃ (h : Nat) (node : Placed h), h ≤ 4 ∧ node.block = root ∧ Placed.Stored after h node ∧
    (Placed.blocks h node).Nodup ∧ WellFormed keys h (Placed.tree h node) ∧
    Under (edbBtreeSplit ≤ ·) h (Placed.tree h node)
  gets : ∀ k, btreeGet after depth root k = some (getAnswer (bindings.reverse.lookup k))
  ends : ∃ sorted : List (Nat × Nat), (sorted.Pairwise fun left right => left.1 < right.1) ∧
    (∀ k value, (k, value) ∈ sorted ↔ bindings.reverse.lookup k = some value) ∧
    btreeFirst after depth root = some (pairAnswer sorted.head?) ∧
    btreeLast after depth root = some (pairAnswer sorted.getLast?)

/-- A tree that is loaded in an order that extends it on either side is a map, whatever
its size, and the other blocks of the client are as they were. -/
theorem btreeBuild_map (contract : HolderContract api)
    (valid : contract.Valid held (zeros calls) db)
    (mine : root ∈ held) (bindings : List (Nat × Nat))
    (small : ∀ binding ∈ bindings, binding.1 < 4294967296 ∧ binding.2 < 4294967296)
    (order : LoadOrder bindings []) (deep : 4 < depth)
    (enough : putCost * bindings.length ≤ calls) :
    ∃ last after, btreeBuild api depth root bindings db = .ok last after ∧
    BuiltTree after depth last bindings ∧
      ∀ block ∈ held, block ≠ root → after.data block = db.data block := by
  obtain ⟨init, started⟩ := Loading.init valid mine
  obtain ⟨last, after, later, rest, h, node, ran, ⟨_, rfl, heldNode, binds⟩, confined⟩ :=
    started.load deep bindings small order enough
  rw [List.append_nil] at binds
  have low := Nat.lt_of_le_of_lt binds.height_le deep
  have wellFormed := binds.wellFormed
  refine ⟨_, after, ?_,
    ⟨⟨h, node, binds.height_le, rfl, heldNode.stored, heldNode.distinct, wellFormed,
    binds.loaded.least⟩, fun k => binds.btreeGet heldNode.stored deep,
    ⟨BPlus.pairs h (Placed.tree h node), ?_,
    binds.pairs, ?_, ?_⟩⟩, fun block member apart => ?_⟩
  · unfold btreeBuild
    rw [Code.bind_ok init]
    exact ran
  · exact pairs_ascending wellFormed.bounded.searchable
  · rw [btreeFirst_eq heldNode.stored wellFormed.filled low, wellFormed.filled.first_eq]
  · rw [btreeLast_eq heldNode.stored wellFormed.filled low, wellFormed.filled.last_eq]
  · have outside : block ∉ Placed.blocks 0 (⟨root, []⟩ : Placed 0) :=
      fun inside => apart (List.mem_singleton.mp inside)
    rw [(confined.kept block member outside).2, Db.write_data_of_ne apart]

/-- Keys in ascending order extend the tree. -/
theorem LoadOrder.ascending {bindings : List (Nat × Nat)} {known : List Nat}
    (sorted : bindings.Pairwise fun left right => left.1 < right.1)
    (above : ∀ key ∈ known, ∀ binding ∈ bindings, key < binding.1) : LoadOrder bindings known := by
  induction bindings generalizing known with
  | nil => trivial
  | cons binding rest ih =>
      obtain ⟨first, later⟩ := List.pairwise_cons.mp sorted
      refine ⟨.inr (.inr fun key member => above key member binding List.mem_cons_self),
        ih later ?_⟩
      intro key member other there
      rcases List.mem_cons.mp member with rfl | old
      · exact first other there
      · exact above key old other (List.mem_cons_of_mem _ there)

/-- Bindings with ascending keys. -/
@[irreducible] def numbered (count : Nat) : List (Nat × Nat) :=
  (List.range count).map fun i => (i + 1, 2 * i)

/-- The bindings of the example. -/
theorem mem_numbered {count : Nat} {binding : Nat × Nat} :
    binding ∈ numbered count ↔ ∃ i < count, (i + 1, 2 * i) = binding := by
  simp [numbered]

/-- Their keys ascend. -/
theorem numbered_sorted (count : Nat) : (numbered count).Pairwise fun left right =>
    left.1 < right.1 := by
  rw [numbered]
  refine List.pairwise_map.mpr (List.pairwise_lt_range.imp fun before => ?_)
  exact Nat.succ_lt_succ before

/-- Each key of the example lies above all before it. -/
theorem numbered_order (count : Nat) : LoadOrder (numbered count) [] :=
  .ascending (numbered_sorted count) fun _ none => absurd none List.not_mem_nil

/-- Each of them is found in reverse. -/
theorem numbered_lookup {count i : Nat} (inside : i < count) :
    (numbered count).reverse.lookup (i + 1) = some (2 * i) := by
  refine (Assoc.lookup_eq_some ?_).mpr (List.mem_reverse.mpr (mem_numbered.mpr ⟨i, inside, rfl⟩))
  rw [List.map_reverse, List.nodup_reverse]
  exact List.pairwise_map.mpr ((numbered_sorted count).imp Nat.ne_of_lt)

/-- Six hundred bindings, more than a node has room for: the tree grows, and they are found. -/
theorem btreeBuild_map_grown : ∃ last after,
    btreeBuild mockApi 5 1 (numbered 600) ⟨fun _ =>
      Image.zero, List.range' 2 38400⟩ = .ok last after ∧
      ∀ i < 600, btreeGet after 5 last (i + 1) = some (0, 2 * i) := by
  have valid : mockContract.holder.Valid {block | block ∈ [1]} (zeros 38400)
      ⟨fun _ => Image.zero, List.range' 2 38400⟩ := by
    refine mockHolder_valid _ ?_ ?_ ?_
    · exact (List.nodup_range' : (List.range' 1 38401).Nodup)
    · intro block member
      have inside : block ∈ List.range' 1 38401 := member
      rw [List.mem_range'_1] at inside
      omega
    · rw [List.length_range']
  have small : ∀ binding ∈ numbered 600, binding.1 < 4294967296 ∧ binding.2 < 4294967296 := by
    intro binding member
    obtain ⟨i, inside, rfl⟩ := mem_numbered.mp member
    omega
  have cost : putCost * (numbered 600).length ≤ 38400 := by
    rw [numbered, List.length_map, List.length_range]
    decide
  obtain ⟨last, after, ran, built, _⟩ :=
    btreeBuild_map mockContract.holder valid (List.mem_singleton.mpr rfl)
    (numbered 600) small (numbered_order 600) (show 4 < 5 by decide) cost
  refine ⟨last, after, ran, fun i inside => ?_⟩
  rw [built.gets, numbered_lookup inside]
  rfl

end EverDb
