import EverDb.Core

/-!
# The B+ tree

`btree.c`. A node is one block: `magic` in word 0, `self_size` in word 1, the
keys from word 4 and the data from word 514 on, 510 each. The data of a leaf are
values, the data of an internal node the numbers of its children.
-/

namespace EverDb

open Foundation

variable {ρ : Type}

/-- `EDB_BTREE_SIZE`. -/
abbrev edbBtreeSize : Nat := 510

/-- `EDB_BTREE_SPLIT`. -/
abbrev edbBtreeSplit : Nat := 127

/-- `EDB_ERROR_BTREE_INVALID_KEY`. -/
abbrev edbErrorBtreeInvalidKey : Int := 3351

/-- `EDB_ERROR_BTREE_FULL`. -/
abbrev edbErrorBtreeFull : Int := 3352

/-- `EDB_MAGIC_BTREE`. -/
abbrev edbMagicBtree : Nat := 3300

/-- `EDB_MAGIC_BTREE_LEAF`. -/
abbrev edbMagicBtreeLeaf : Nat := 3301

namespace Bt

/-- `bt->magic`. -/
def magic (bt : Image) : Nat := bt.word 0

/-- `bt->self_size`. -/
def selfSize (bt : Image) : Nat := bt.word 1

/-- `bt->key[i]`. -/
def key (bt : Image) (i : Nat) : Nat := bt.word (4 + i)

/-- `bt->data[i]`. -/
def data (bt : Image) (i : Nat) : Nat := bt.word (514 + i)

/-- `bt->magic = value`. -/
def setMagic (bt : Image) (value : Nat) : Image := bt.setWord 0 value

/-- `bt->self_size = value`. -/
def setSelfSize (bt : Image) (value : Nat) : Image := bt.setWord 1 value

/-- `bt->key[i] = value`. -/
def setKey (bt : Image) (i value : Nat) : Image := bt.setWord (4 + i) value

/-- `bt->data[i] = value`. -/
def setData (bt : Image) (i value : Nat) : Image := bt.setWord (514 + i) value

/-- `bt->key[bt->self_size - 1]`. -/
def lastKey (bt : Image) : Nat := key bt (sub32 (selfSize bt) 1)

end Bt

open Bt

/-- The binary search of `list_find` between `b` and `e`; the distance halves,
so `e - b` rounds suffice. -/
def listFindFrom (bt : Image) (k : Nat) : Nat → Nat → Nat → Nat
  | 0, b, _ => b
  | rounds + 1, b, e =>
      if b < e then
        let m := (b + e) / 2
        if k > key bt m then listFindFrom bt k rounds (m + 1) e else listFindFrom bt k rounds b m
      else b

/-- `list_find`. -/
def listFind (bt : Image) (k : Nat) : Nat := listFindFrom bt k (selfSize bt) 0 (selfSize bt)

/-- The loop of `list_insert`: move the entries `j .. j + left - 1` up by one,
from the top. -/
def listShiftUp (j : Nat) : Nat → Image → Image
  | 0, bt => bt
  | left + 1, bt =>
      let i := j + left + 1
      listShiftUp j left (setData (setKey bt i (key bt (i - 1))) i (data bt (i - 1)))

/-- `list_insert`. -/
def listInsert (bt : Image) (j k value : Nat) : Image :=
  let bt := listShiftUp j (selfSize bt - j) bt
  let bt := setData (setKey bt j k) j value
  setSelfSize bt (u32 (selfSize bt + 1))

/-- The loop that moves the entries of `b0` from `start` on to the front of `b1`. -/
def moveEntries (b0 : Image) (start : Nat) : Nat → Nat → Image → Image
  | 0, _, b1 => b1
  | left + 1, i, b1 =>
      moveEntries b0 start left (i + 1)
        (setData (setKey b1 (i - start) (key b0 i)) (i - start) (data b0 i))

/-- The node `btree_init` writes. -/
def btreeInitImage : Image := setSelfSize (setMagic Image.zero edbMagicBtreeLeaf) 0

/-- `btree_init`. -/
def btreeInit (root : Nat) : Code (Db ρ) Unit := .update fun db => db.write root btreeInitImage

/-- The check that opens every tree function. -/
def isBtree (bt : Image) : Bool := magic bt = edbMagicBtreeLeaf || magic bt = edbMagicBtree

/-- `btree_get`: the return code and `*value`, to a depth of calls. -/
def btreeGet (db : Db ρ) : Nat → Nat → Nat → Option (Int × Nat)
  | 0, _, _ => none
  | depth + 1, root, k =>
      let bt := db.data root
      if !isBtree bt then some (edbErrorDataCorrupt, 0)
      else
        let b := listFind bt k
        if b < selfSize bt then
          if magic bt = edbMagicBtreeLeaf then
            if key bt b = k then some (0, data bt b) else some (edbErrorBtreeInvalidKey, 0)
          else btreeGet db depth (data bt b) k
        else some (edbErrorBtreeInvalidKey, 0)

/-- `btree_first`: the return code, `*key` and `*value`, to a depth of calls. -/
def btreeFirst (db : Db ρ) : Nat → Nat → Option (Int × Nat × Nat)
  | 0, _ => none
  | depth + 1, root =>
      let bt := db.data root
      if !isBtree bt then some (edbErrorDataCorrupt, 0, 0)
      else if selfSize bt = 0 then some (edbErrorBtreeInvalidKey, 0, 0)
      else if magic bt = edbMagicBtreeLeaf then some (0, key bt 0, data bt 0)
      else (btreeFirst db depth (data bt 0)).map fun (err, k, value) =>
        if err = 0 then (0, k, value) else (err, 0, 0)

/-- `btree_last`. -/
def btreeLast (db : Db ρ) : Nat → Nat → Option (Int × Nat × Nat)
  | 0, _ => none
  | depth + 1, root =>
      let bt := db.data root
      if !isBtree bt then some (edbErrorDataCorrupt, 0, 0)
      else if selfSize bt = 0 then some (edbErrorBtreeInvalidKey, 0, 0)
      else if magic bt = edbMagicBtreeLeaf then some (0, lastKey bt,
        data bt (sub32 (selfSize bt) 1))
      else (btreeLast db depth (data bt (sub32 (selfSize bt) 1))).map fun (err, k, value) =>
        if err = 0 then (0, k, value) else (err, 0, 0)

/-- Change one node in place. -/
def editNode (block : Nat) (change : Image → Image) : Code (Db ρ) Unit :=
  .update fun db => db.write block (change (db.data block))

/-- The leaf case of `btree_set`. -/
def btreeSetLeaf (root k value : Nat) : Code (Db ρ) Unit := do
  let bt ← .gets fun db => db.data root
  let b := listFind bt k
  if b < selfSize bt ∧ key bt b = k then editNode root fun bt => setData bt b value
  else if selfSize bt < edbBtreeSize then editNode root fun bt => listInsert bt b k value
  else .fail edbErrorBtreeFull

/-- The split in `btree_set`: make room in the parent, take a new block for the
upper part of child `b` and move the entries from `EDB_BTREE_SPLIT` on. -/
def btreeSplit (api : BlockApi (Db ρ)) (root b child0 : Nat) : Code (Db ρ) Nat := do
  editNode root fun bt => listInsert bt (b + 1) 0 0
  let child1 ← api.allocate
  btreeInit child1
  let b0 ← .gets fun db => db.data child0
  editNode child1 fun b1 => setMagic b1 (magic b0)
  editNode root fun bt => setData bt (b + 1) child1
  let b0 ← .gets fun db => db.data child0
  editNode child1 fun b1 =>
    moveEntries b0 edbBtreeSplit (selfSize b0 - edbBtreeSplit) edbBtreeSplit b1
  editNode child1 fun b1 => setSelfSize b1 (sub32 (selfSize b0) edbBtreeSplit)
  editNode child0 fun b0 => setSelfSize b0 edbBtreeSplit
  pure child1

/-- `btree_set`, to a depth of calls. -/
def btreeSet (api : BlockApi (Db ρ)) : Nat → Nat → Nat → Nat → Code (Db ρ) Unit
  | 0, _, _, _ => .diverge
  | depth + 1, root, k, value => do
      let bt ← .gets fun db => db.data root
      if !isBtree bt then .fail edbErrorDataCorrupt
      else if magic bt = edbMagicBtreeLeaf then btreeSetLeaf root k value
      -- an internal node without entries would be read at `data[-1]`
      else if selfSize bt = 0 then .diverge
      else do
        let found := listFind bt k
        let b := if found = selfSize bt then found - 1 else found
        let child0 ← api.modify (data bt b)
        editNode root fun bt => setData bt b child0
        let r ← (btreeSet api depth child0 k value).attempt
        if r = 0 then do
          let b0 ← .gets fun db => db.data child0
          editNode root fun bt => setKey bt b (lastKey b0)
        else if r = edbErrorBtreeFull then do
          let bt ← .gets fun db => db.data root
          if selfSize bt < edbBtreeSize then do
            let child1 ← btreeSplit api root b child0
            -- retry on the side that the parent's key, read before the split is
            -- recorded in it, selects
            let bt ← .gets fun db => db.data root
            if k ≤ key bt b then btreeSet api depth (data bt b) k value
            else btreeSet api depth (data bt (b + 1)) k value
            let b0 ← .gets fun db => db.data child0
            editNode root fun bt => setKey bt b (lastKey b0)
            let b1 ← .gets fun db => db.data child1
            editNode root fun bt => setKey bt (b + 1) (lastKey b1)
          else .fail edbErrorBtreeFull
        else .fail r

/-- `btree_grow` once the root is writable and both new blocks are there. -/
def btreeGrowInto (root newRoot child1 : Nat) : Code (Db ρ) (Int × Nat) := do
  btreeInit newRoot
  btreeInit child1
  let b0 ← .gets fun db => db.data root
  editNode child1 fun b1 => setMagic b1 (magic b0)
  let n := selfSize b0 / 2
  editNode child1 fun b1 => moveEntries b0 n (selfSize b0 - n) n b1
  editNode child1 fun b1 => setSelfSize b1 (sub32 (selfSize b0) n)
  editNode root fun b0 => setSelfSize b0 n
  let b0 ← .gets fun db => db.data root
  let b1 ← .gets fun db => db.data child1
  -- a lower half without entries would be read at `key[-1]`
  if n = 0 then .diverge
  else do
    editNode newRoot fun bt => setMagic bt edbMagicBtree
    editNode newRoot fun bt => setKey bt 0 (lastKey b0)
    editNode newRoot fun bt => setKey bt 1 (lastKey b1)
    editNode newRoot fun bt => setData bt 0 root
    editNode newRoot fun bt => setData bt 1 child1
    editNode newRoot fun bt => setSelfSize bt 2
    pure (0, newRoot)

/-- `btree_grow`: the return code and `*new_root`. -/
def btreeGrow (api : BlockApi (Db ρ)) (root newRoot : Nat) : Code (Db ρ) (Int × Nat) := do
  let b0 ← .gets fun db => db.data newRoot
  if !isBtree b0 then pure (edbErrorDataCorrupt, newRoot)
  else
    .branch (api.modify root) (fun code => pure (code, newRoot)) fun root =>
    .branch api.allocate (fun code => pure (code, newRoot)) fun newRoot =>
    .branch api.allocate (fun code => pure (code, newRoot)) fun child1 =>
    btreeGrowInto root newRoot child1

end EverDb
