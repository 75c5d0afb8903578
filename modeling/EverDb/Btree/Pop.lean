import EverDb.Btree.Model

/-!
# btree_pop

The removal of a key, as `btree.c` does it: on the way up a child that reports
`EDB_ERROR_BTREE_EMPTY` takes an entry from the child beside it, or is joined
with it. An access past the arrays of a node has no result here.
-/

namespace EverDb

open Foundation Bt

variable {ρ : Type}

/-- `EDB_ERROR_BTREE_EMPTY`: the key is gone and the node may have become too small. -/
abbrev edbErrorBtreeEmpty : Int := 3353

/-- `EDB_ERROR_BTREE_REALLY_EMPTY`. -/
abbrev edbErrorBtreeReallyEmpty : Int := 3354

/-- The loop of `list_remove`: move the entries from `j + 1` on down by one. -/
def listShiftDown : Nat → Nat → Image → Image
  | 0, _, bt => bt
  | left + 1, j, bt =>
      listShiftDown left (j + 1) (setData (setKey bt j (key bt (j + 1))) j (data bt (j + 1)))

/-- `list_remove`, for a node with entries. -/
def listRemove (bt : Image) (j : Nat) : Image :=
  let bt := listShiftDown (selfSize bt - 1 - j) j bt
  let bt := setSelfSize bt (selfSize bt - 1)
  setData (setKey bt (selfSize bt) 0) (selfSize bt) 0

/-- The loop that joins two nodes: the entries of `b1` from `i` on go behind those of
`b0`, whose `self_size` the loop leaves alone. -/
def joinEntries (b1 : Image) : Nat → Nat → Image → Image
  | 0, _, b0 => b0
  | left + 1, i, b0 =>
      joinEntries b1 left (i + 1)
        (setData (setKey b0 (selfSize b0 + i) (key b1 i)) (selfSize b0 + i) (data b1 i))

/-- Record the last keys of two children in the parent; an empty child would be read at
`key[-1]`. -/
def labelChild (root b child : Nat) : Code (Db ρ) Unit := do
  let b0 ← .gets fun db => db.data child
  if selfSize b0 = 0 then .diverge else editNode root fun bt => setKey bt b (lastKey b0)

/-- The steal in `btree_pop`: child `b` takes the nearest entry of the other one. -/
def btreeSteal (root b other child0 child1 : Nat) : Code (Db ρ) Unit := do
  let b0 ← .gets fun db => db.data child0
  if edbBtreeSize ≤ selfSize b0 then .diverge
  else do
    let b1 ← .gets fun db => db.data child1
    if other < b then do
      editNode child0 fun b0 =>
        listInsert b0 0 (key b1 (selfSize b1 - 1)) (data b1 (selfSize b1 - 1))
      editNode child1 fun b1 => listRemove b1 (selfSize b1 - 1)
    else do
      editNode child0 fun b0 => listInsert b0 (selfSize b0) (key b1 0) (data b1 0)
      editNode child1 fun b1 => listRemove b1 0
    labelChild root b child0
    labelChild root other child1

/-- The merge in `btree_pop`: the entries of `child1` go behind those of `child0`, the
child at `first`, and its block is freed. -/
def btreeMerge (api : BlockApi (Db ρ)) (root first child0 child1 : Nat) : Code (Db ρ) Unit := do
  let b0 ← .gets fun db => db.data child0
  let b1 ← .gets fun db => db.data child1
  if edbBtreeSize < selfSize b0 + selfSize b1 then .diverge
  else do
    editNode child0 fun b0 => joinEntries b1 (selfSize b1) 0 b0
    editNode child0 fun b0 => setSelfSize b0 (selfSize b0 + selfSize b1)
    api.free child1
    editNode root fun bt => listRemove bt (first + 1)
    labelChild root first child0

/-- The repair of child `b` once it and the child beside it, before it or after it, are
writable. -/
def btreeRepair (api : BlockApi (Db ρ)) (root b : Nat) (mergeFromLeft : Bool)
    (child0 child1 value : Nat) : Code (Db ρ) (Int × Nat) := do
  let other := if mergeFromLeft then b - 1 else b + 1
  let first := if mergeFromLeft then b - 1 else b
  editNode root fun bt => setData bt b child0
  editNode root fun bt => setData bt other child1
  let b1 ← .gets fun db => db.data child1
  if edbBtreeSplit < selfSize b1 then do
    btreeSteal root b other child0 child1
    pure (0, value)
  else
    let lower := if mergeFromLeft then child1 else child0
    let upper := if mergeFromLeft then child0 else child1
    .branch (btreeMerge api root first lower upper) (fun code => pure (code, 0)) fun _ => do
      let bt ← .gets fun db => db.data root
      -- `CHECK(r)` clears `*value` on its way out, and `r` still is the child's code
      if selfSize bt < edbBtreeSplit then pure (edbErrorBtreeEmpty, value)
      else pure (edbErrorBtreeEmpty, 0)

/-- What `btree_pop` does when child `b` reports `EDB_ERROR_BTREE_EMPTY`. -/
def btreeRebalance (api : BlockApi (Db ρ)) (root b child0 value : Nat) :
    Code (Db ρ) (Int × Nat) := do
  let bt ← .gets fun db => db.data root
  if selfSize bt ≤ 1 then pure (edbErrorBtreeReallyEmpty, 0)
  else
    -- if this is the rightmost child, then merge from the left
    let mergeFromLeft := decide (b + 1 = selfSize bt)
    let other := if mergeFromLeft then b - 1 else b + 1
    .branch (api.modify child0) (fun code => pure (code, 0)) fun child0 =>
    .branch (api.modify (data bt other)) (fun code => pure (code, 0)) fun child1 =>
    btreeRepair api root b mergeFromLeft child0 child1 value

/-- The leaf case of `btree_pop`. -/
def btreePopLeaf (root k : Nat) : Code (Db ρ) (Int × Nat) := do
  let bt ← .gets fun db => db.data root
  let b := listFind bt k
  if edbBtreeSize ≤ b then .diverge
  else if key bt b ≠ k then pure (edbErrorBtreeInvalidKey, 0)
  -- `self_size - 1` wraps in an empty node
  else if selfSize bt = 0 then .diverge
  else do
    editNode root fun bt => listRemove bt b
    let after ← .gets fun db => db.data root
    pure (if selfSize after < edbBtreeSplit then edbErrorBtreeEmpty else 0, data bt b)

/-- `btree_pop`: the return code and `*value`, to a depth of calls. -/
def btreePop (api : BlockApi (Db ρ)) : Nat → Nat → Nat → Code (Db ρ) (Int × Nat)
  | 0, _, _ => .diverge
  | depth + 1, root, k => do
      let bt ← .gets fun db => db.data root
      if !isBtree bt then pure (edbErrorDataCorrupt, 0)
      else if magic bt = edbMagicBtreeLeaf then btreePopLeaf root k
      else
        let b := listFind bt k
        if edbBtreeSize ≤ b then .diverge
        else if key bt b < k then pure (edbErrorBtreeInvalidKey, 0)
        else
          .branch (api.modify (data bt b)) (fun code => pure (code, 0)) fun child0 => do
            editNode root fun bt => setData bt b child0
            let (r, value) ← btreePop api depth child0 k
            if r = 0 then do
              labelChild root b child0
              pure (0, value)
            else if r = edbErrorBtreeEmpty then btreeRebalance api root b child0 value
            else pure (r, 0)

end EverDb
