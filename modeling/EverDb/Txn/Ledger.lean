import EverDb.MemHash.Spec
import EverDb.Txn.Growth

/-!
# The bookkeeping of a transaction

`Ledger` is what an open transaction knows about blocks: how many there are, the
freelist and the object list as lists, the object-list root and the block table.
Its operations say which block each call of `txn.c` returns and how the lists
change, with no bytes and no allocator behind them.
-/

namespace EverDb

open Foundation

/-- The lists of a database between transactions. -/
structure Books where
  nblocks : Nat
  free : List Nat
  objects : List Nat
deriving DecidableEq, Repr

/-- The bookkeeping of an open transaction. -/
structure Ledger extends Books where
  objlist : Nat
  table : MemHash

/-- Growing the file pays off: the new blocks fit in the root of the freelist, and
`io_resize` can address them. -/
def growthFits (nblocks : Nat) : Prop :=
  grownBlocks nblocks ≤ nblocks + 1022 ∧ grownBlocks nblocks < 1048576

instance (nblocks : Nat) : Decidable (growthFits nblocks) :=
  inferInstanceAs (Decidable (_ ∧ _))

/-- Whether `count` blocks can be taken from a freelist of `length` entries while
its entries stay in its root. -/
def takesFit : Nat → Nat → Nat → Prop
  | 0, _, _ => True
  | count + 1, 0, nblocks => growthFits nblocks ∧
      takesFit count (grownBlocks nblocks - (nblocks + 1)) (grownBlocks nblocks)
  | count + 1, length + 1, nblocks => takesFit count length nblocks

/-- Whether the blocks of a call can be taken can be checked. -/
instance takesFitDecidable : ∀ count length nblocks, Decidable (takesFit count length nblocks)
  | 0, _, _ => inferInstanceAs (Decidable True)
  | count + 1, 0, nblocks =>
      have := takesFitDecidable count (grownBlocks nblocks - (nblocks + 1)) (grownBlocks nblocks)
      inferInstanceAs (Decidable (_ ∧ _))
  | count + 1, length + 1, nblocks => takesFitDecidable count length nblocks

/-- The entry that commit pushes for a slot: the block freed, or the one a copy
supersedes. Blocks below `EDB_USER_DATA` are never pushed. -/
def released (entry : Nat × Nat) : Option Nat :=
  if entry.2 = freed then some entry.1
  else if entry.2 = allocated ∨ entry.2 < edbUserData then none
  else some entry.2

/-- The block behind a copy is released. -/
theorem released_source {key source : Nat} (user : 4 ≤ source) (small : source < 1048576) :
    released (key, source) = some source := by
  have notFreed : source ≠ freed := by
    simp only [freed]
    omega
  have notLow : ¬(source = allocated ∨ source < edbUserData) := by
    simp only [allocated, edbUserData]
    omega
  simp only [released, if_neg notFreed, if_neg notLow]

/-- The blocks that a table releases, in slot order. -/
def releases (table : MemHash) : List Nat := table.items.filterMap released

/-- The bookkeeping when a transaction begins: only the freelist root is copied. -/
def Books.begun (books : Books) : Ledger where
  toBooks := books
  objlist := edbObjlist
  table := (memHashSet memHashNew edbFreelistSecondary edbFreelistPrimary).getD memHashNew

namespace Ledger

/-- The blocks of the transaction's working copy of the object list. -/
def workingCopy (l : Ledger) : List Nat := if l.objlist = edbObjlist then [] else [l.objlist]

/-- Change the state of a block. -/
def set (l : Ledger) (block state : Nat) : Ledger :=
  { l with table := (memHashSet l.table block state).getD l.table }

/-- Take a block: the last free one, or the first of the blocks the file grows by. -/
def take (l : Ledger) : Nat × Ledger :=
  match l.free.getLast? with
  | some block => (block, { l with free := l.free.dropLast })
  | none => (l.nblocks,
      { l with
        nblocks := grownBlocks l.nblocks
        free := List.range' (l.nblocks + 1) (grownBlocks l.nblocks - (l.nblocks + 1)) })

/-- What `edb_allocate_block` does to the ledger. -/
def allocate (l : Ledger) : Nat × Ledger := (l.take.1, l.take.2.set l.take.1 allocated)

/-- What `edb_modify_block` does to the ledger. -/
def modify (l : Ledger) (block : Nat) : Nat × Ledger :=
  if l.table.get block = 0 then (l.take.1, l.take.2.set l.take.1 block) else (block, l)

/-- Push a block on the freelist. -/
def giveBack (l : Ledger) (block : Nat) : Ledger := { l with free := l.free ++ [block] }

/-- What `edb_free_block` does to the ledger. -/
def freeBlock (l : Ledger) (block : Nat) : Ledger :=
  if l.table.get block = 0 then l.set block freed
  else if l.table.get block = allocated then (l.set block 0).giveBack block
  else ((l.set block 0).set (l.table.get block) freed).giveBack block

/-- Open the object list for writing. -/
def openObjlist (l : Ledger) : Ledger :=
  { (l.modify l.objlist).2 with objlist := (l.modify l.objlist).1 }

/-- Create an object: its root joins the object list. -/
def create (l : Ledger) : Nat × Ledger :=
  (l.openObjlist.allocate.1,
    { l.openObjlist.allocate.2 with
      objects := l.openObjlist.allocate.2.objects ++ [l.openObjlist.allocate.1] })

/-- The block that commit pushes for a slot of the table. -/
def pushedFor (l : Ledger) (entry : Nat × Nat) : Option Nat :=
  if entry.1 = edbFreelistSecondary then none
  else if entry.1 = l.objlist then some entry.1
  else released entry

/-- The books that a commit leaves. -/
def commit (l : Ledger) : Books where
  nblocks := l.nblocks
  free := l.free ++ l.table.items.filterMap l.pushedFor
  objects := l.objects

end Ledger

variable {t : MemHash} {k v : Nat}

/-- The binding of a key stands in front of the others. -/
theorem releases_perm (wf : t.Wf) (k : Nat) :
    (releases t).Perm
      ((released (k, t.get k)).toList ++ (Assoc.without t.items k).filterMap released) := by
  unfold releases
  by_cases bound : ∃ value, (k, value) ∈ t.items
  · obtain ⟨value, member⟩ := bound
    have read : t.get k = value := by
      rw [MemHash.get, (Assoc.lookup_eq_some wf.keys_nodup).mpr member]
      rfl
    have perm := (Assoc.perm_cons_without wf.keys_nodup member).filterMap released
    rw [List.filterMap_cons] at perm
    rw [read]
    cases pushed : released (k, value) <;> simpa [pushed] using perm
  · have absent : ∀ entry ∈ t.items, entry.1 ≠ k := by
      rintro ⟨key, value⟩ member rfl
      exact bound ⟨value, member⟩
    have zero : t.get k = 0 := by
      rw [MemHash.get]
      cases found : t.items.lookup k with
      | none => rfl
      | some value =>
          exact absurd rfl (absent _ ((Assoc.lookup_eq_some wf.keys_nodup).mp found))
    rw [zero, Assoc.without_of_absent absent]
    exact List.Perm.refl _

/-- What setting a key does to a table. -/
structure TableSet (t after : MemHash) (k v : Nat) : Prop where
  ran : memHashSet t k v = some after
  wf : after.Wf
  get : ∀ other, after.get other = if other = k then v else t.get other
  keys : ∀ entry ∈ after.items, entry.1 = k ∨ ∃ old ∈ t.items, old.1 = entry.1
  releases : (releases t ++ (released (k, v)).toList).Perm
    (releases after ++ (released (k, t.get k)).toList)

/-- Setting a key of a well formed table with few keys succeeds. -/
theorem MemHash.Wf.set_effect (wf : t.Wf) (nonzero : k ≠ 0)
    (few : t.items.length < maxKeys) (v : Nat) :
    ∃ after, TableSet t after k v := by
  have fewer : (Assoc.without t.items k).length ≤ t.items.length := List.length_filter_le _ _
  obtain ⟨after, ran, afterWf, perm⟩ := wf.set_spec nonzero (by omega) v
  refine ⟨after, ran, afterWf, MemHash.get_of_perm wf afterWf perm, ?_, ?_⟩
  · intro entry member
    rcases List.mem_cons.mp (perm.mem_iff.mp member) with rfl | old
    · exact .inl rfl
    · exact .inr ⟨entry, (Assoc.mem_without.mp old).1, rfl⟩
  · have new : (EverDb.releases after).Perm
        ((released (k, v)).toList ++ (Assoc.without t.items k).filterMap released) := by
      have mapped := perm.filterMap released
      rw [Assoc.bind, List.filterMap_cons] at mapped
      cases pushed : released (k, v) <;> simpa [EverDb.releases, pushed] using mapped
    have old := releases_perm wf k
    rw [List.perm_iff_count] at new old ⊢
    intro block
    have := new block
    have := old block
    simp only [List.count_append] at *
    omega

/-- A table whose keys are block numbers below `nblocks` has fewer keys than that. -/
theorem MemHash.Wf.length_le (wf : t.Wf) {nblocks : Nat}
    (keys : ∀ entry ∈ t.items, entry.1 < nblocks) : t.items.length ≤ nblocks := by
  have inside : (t.items.map Prod.fst).toFinset ⊆ Finset.range nblocks := by
    intro key member
    obtain ⟨entry, there, rfl⟩ := List.mem_map.mp (List.mem_toFinset.mp member)
    exact Finset.mem_range.mpr (keys entry there)
  have counted := Finset.card_le_card inside
  rwa [List.toFinset_card_of_nodup wf.keys_nodup, List.length_map, Finset.card_range] at counted

/-- A key with a value is in the table. -/
theorem MemHash.key_of_get (wf : t.Wf) (bound : t.get k ≠ 0) : (k, t.get k) ∈ t.items := by
  unfold MemHash.get at bound ⊢
  cases found : t.items.lookup k with
  | none => rw [found] at bound; exact absurd rfl bound
  | some value => exact (Assoc.lookup_eq_some wf.keys_nodup).mp found

end EverDb
