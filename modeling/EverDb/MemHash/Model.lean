import EverDb.Core

/-!
# The in-memory hash table

`mem_hash.h`: open addressing over slots of a key and a value, probed at
triangular distances in 32-bit arithmetic. A key of zero marks an unused slot.
The table only grows, through the listed sizes.
-/

namespace EverDb

open Foundation

/-- `HASH_SIZES`. -/
def hashSizes : List Nat :=
  [3, 7,
   13, 23, 41, 71,
   127, 223, 373, 631,
   1061, 1777, 1801, 3011, 5021, 8369,
   13963, 23279, 38803, 64679,
   107827, 179717, 299539, 499253, 832103,
   1386839, 2311409, 3852361, 6420683]

/-- `mem_hash_item`. -/
structure MemHashItem where
  k : Nat
  v : Nat
deriving DecidableEq, Repr

/-- `mem_hash`. -/
structure MemHash where
  count : Nat
  capacity : Nat
  entries : Nat → MemHashItem

/-- What `calloc` leaves in the slots. -/
def emptyEntries : Nat → MemHashItem := fun _ => ⟨0, 0⟩

/-- `mem_hash_new`. -/
def memHashNew : MemHash := ⟨0, 0, emptyEntries⟩

/-- `mem_hash_hash`. -/
def memHashHash (k : Nat) : Nat :=
  let k := u32 (((k >>> 16) ^^^ k) * 0x45d9f3b)
  let k := u32 (((k >>> 16) ^^^ k) * 0x45d9f3b)
  (k >>> 16) ^^^ k

/-- `mem_hash_probe`. -/
def memHashProbe (h i : Nat) : Nat := u32 (h + u32 (i * i + i) / 2)

/-- The probe loop that `mem_hash_set` and `mem_hash_get` share: from round `i`
on, the first slot that is unused or holds `k`. The counter `i` is a `u32`. -/
def memHashFind (t : MemHash) (k h : Nat) : Nat → Nat → Option Nat
  | 0, _ => none
  | rounds + 1, i =>
      let slot := memHashProbe h i % t.capacity
      if (t.entries slot).k ≠ 0 ∧ (t.entries slot).k ≠ k then memHashFind t k h rounds (i + 1)
      else some slot

/-- Store into a slot, counting it when it was unused. -/
def MemHash.put (t : MemHash) (slot k v : Nat) : MemHash where
  count := if (t.entries slot).k = 0 then u32 (t.count + 1) else t.count
  capacity := t.capacity
  entries := fun other => if other = slot then ⟨k, v⟩ else t.entries other

/-- Whether `mem_hash_set` resizes first. -/
def MemHash.crowded (t : MemHash) : Bool := u32 (t.count * 2 + 1) > t.capacity

/-- The loop of `mem_hash_resize` that moves the old slots from `i` on. -/
def memHashRehash (set : MemHash → Nat → Nat → Option MemHash) (old : Nat → MemHashItem) :
    Nat → Nat → MemHash → Option MemHash
  | 0, _, t => some t
  | left + 1, i, t =>
      if (old i).k ≠ 0 then
        (set t (old i).k (old i).v).bind (memHashRehash set old left (i + 1))
      else memHashRehash set old left (i + 1) t

/-- `mem_hash_resize`, given the `mem_hash_set` it calls. The search of the size
list runs to `sizeof(HASH_SIZES)`, past its end: it has no result when no listed
size is large enough. -/
def memHashResize (set : MemHash → Nat → Nat → Option MemHash) (t : MemHash) :
    Option MemHash := do
  let capacity ← hashSizes.find? fun size => size ≥ u32 (t.count * 2 + 1)
  if t.capacity ≥ capacity then some { t with capacity := capacity }
  else memHashRehash set t.entries t.capacity 0 ⟨0, capacity, emptyEntries⟩

/-- `mem_hash_set`, to a depth of calls through `mem_hash_resize`. -/
def memHashSetWithin : Nat → MemHash → Nat → Nat → Option MemHash
  | 0, _, _, _ => none
  | depth + 1, t, k, v => do
      let t ← if t.crowded then memHashResize (memHashSetWithin depth) t else some t
      let slot ← memHashFind t k (memHashHash k) 4294967296 0
      some (t.put slot k v)

/-- `mem_hash_set`. -/
def memHashSet (t : MemHash) (k v : Nat) : Option MemHash := memHashSetWithin 4294967296 t k v

/-- `mem_hash_get`. -/
def memHashGet (t : MemHash) (k : Nat) : Option Nat :=
  if t.capacity = 0 then some 0
  else (memHashFind t k (memHashHash k) 4294967296 0).map fun slot => (t.entries slot).v

end EverDb
