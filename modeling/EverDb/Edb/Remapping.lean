import EverDb.Array.Capacity
import EverDb.Array.Purity
import EverDb.Array.Relocation
import EverDb.Btree.Update
import EverDb.Edb.Model
import EverDb.Edb.Open

/-!
# Where the file is mapped

Every block function can lengthen the file, and `io_resize` maps it anew. `btree_set`,
`array_push` and `array_pop` keep pointers over such calls. Their results are independent of
the mapping exactly on the inputs where no pointer is used again behind the call.
-/

namespace EverDb.Pointer

open Foundation Foundation.BPlus

variable {ρ : Type} {api : BlockApi (Db ρ)}

/-- An array in an open transaction, while the block functions succeed. -/
structure TendedArray (contract : BlockContract api) (own : Ownership) (db : Db ρ)
    (root size : Nat) (elems : List (List UInt8)) : Prop where
  array : WritableArray contract own db root size elems
  positive : 0 < size
  small : size ≤ 255
  enough : 2 ≤ own.room

/-- The results do not depend on where the calls leave the mapping exactly when a tree has at
most two levels, when the array pushed to is in its root and has room there, and when the array
popped from is in its root or empty. -/
theorem mapped_calls_relocatable (api : BlockApi (Db ρ)) (db : Db ρ) :
    (∀ {contract : HolderContract api} {held : Set Nat} {calls h depth k value : Nat}
      {node : Placed h}, TendedTree contract held calls db node → k < 4294967296 →
      value < 4294967296 → h < depth →
      (Code.Relocatable (btreeSet api depth node.block k value) db ↔ h ≤ 1)) ∧
    ∀ {contract : BlockContract api} {own : Ownership} {root size : Nat}
      {elems : List (List UInt8)}, TendedArray contract own db root size elems →
      (blocksFor size (elems.length + 1) ≤ 521728 →
        2 * blocksFor size (elems.length + 1) + 2 ≤ own.room → ∀ buffer,
        (Code.Relocatable (arrayPush api root buffer) db ↔
          ptNblocks db root = 0 ∧ elems.length < smallCapacity size)) ∧
      (Code.Relocatable (arrayPop api root) db ↔ ptNblocks db root = 0 ∨ elems = []) := by
  refine ⟨fun tree keyBounded valueBounded deep => ⟨fun same => ?_, ?_⟩,
    fun tended => ⟨fun needs room buffer => ⟨fun same => ?_, ?_⟩, fun same => ?_, ?_⟩⟩
  · exact Nat.le_of_not_lt fun tall => btreeSet_moved tree keyBounded valueBounded deep tall same
  · exact btreeSet_still tree keyBounded valueBounded deep
  · by_contra outside
    exact arrayPush_moved tended.array tended.positive tended.small needs room outside buffer same
  · rintro ⟨inRoot, spare⟩
    exact arrayPush_still tended.array tended.positive inRoot spare buffer
  · by_contra outside
    obtain ⟨paged, nonempty⟩ := not_or.mp outside
    exact arrayPop_moved tended.array tended.positive tended.enough paged nonempty same
  · exact arrayPop_still tended.array

/-- A tree with one full leaf below its root. -/
theorem crowded_tended :
    TendedTree mockContract.holder {block | block ∈ [1, 2]} 3 crowdedMemory crowded where
  valid := crowded_valid
  stored := crowded_held
  searchable := crowded_wellFormed.bounded.searchable
  small := crowded_wellFormed.sized
  filled := crowded_wellFormed.filled
  enough := by decide

/-- Three elements in the root. -/
theorem threeElements_tended :
    TendedArray (steadyContract leastUnused_fresh) (holding threeElements.ctl) threeElements 4 4
      [[7, 0, 0, 0], [8, 0, 0, 0], [9, 0, 0, 0]] := by
  refine ⟨?_, by decide, by decide, by decide⟩
  cases threeElements_array leastUnused_fresh with
  | small array => exact .small array
  | paged blocks indexes array =>
      exact .paged blocks indexes ⟨array.held, array.nonempty, array.header, array.fits⟩
        array.elements

/-- One element in a page. -/
theorem pagedElement_tended :
    TendedArray mockContract (mockOwnership [1, 2] 4) pagedElement 1 4 [[0, 0, 0, 0]] :=
  ⟨pagedElement_open, by decide, by decide, by decide⟩

/-- A full leaf is split below a root of leaves, and elements in the root are pushed and popped,
wherever the mapping is; a third level and a page make the same calls depend on it. -/
theorem mapped_calls_relocatable_examples :
    (Code.Relocatable (btreeSet mockApi 2 1 1021 7) crowdedMemory ∧
      ¬Code.Relocatable (btreeSet mockApi 3 1 4 40) threeLevelsMemory) ∧
    (Code.Relocatable (arrayPush (recorder (steady leastUnused)) 4 (Image.ofWord 10))
        threeElements ∧
      Code.Relocatable (arrayPop (recorder (steady leastUnused)) 4) threeElements) ∧
    ¬Code.Relocatable (arrayPush mockApi 1 Image.zero) pagedElement ∧
    ¬Code.Relocatable (arrayPop mockApi 1) pagedElement := by
  have flat := (mapped_calls_relocatable mockApi crowdedMemory).1 crowded_tended
    (show 1021 < 4294967296 by decide) (show 7 < 4294967296 by decide) (show 1 < 2 by decide)
  have tall := (mapped_calls_relocatable mockApi threeLevelsMemory).1 threeLevels_tended
    (show 4 < 4294967296 by decide) (show 40 < 4294967296 by decide) (show 2 < 3 by decide)
  have inRoot := (mapped_calls_relocatable (recorder (steady leastUnused)) threeElements).2
    threeElements_tended
  have paged := (mapped_calls_relocatable mockApi pagedElement).2 pagedElement_tended
  have pushed := inRoot.1 (by decide) (by decide) (Image.ofWord 10)
  have pushedPaged := paged.1 (by decide) (by decide) Image.zero
  refine ⟨⟨flat.mpr (by decide), fun same => absurd (tall.mp same) (by decide)⟩,
    ⟨pushed.mpr (by decide), inRoot.2.mpr (by decide)⟩,
    fun same => absurd (pushedPaged.mp same) (by decide),
    fun same => absurd (paged.2.mp same) (by decide)⟩

/-- The transaction after the one that made the array: its root is writable, and its two pages
are not. -/
def laterArray : Code EdbDb Nat := do
  let root ← pagedFile
  edbTxnBegin 3
  (edbApi 3).modify root

/-- The removal copies a page, for which the file grows: mapped where it was, `array_pop` returns
the element, and mapped elsewhere by that growth alone it reads through its old pointer. -/
theorem arrayPop_stale :
    ∃ root db, laterArray emptyFile = .ok root db ∧ ptNblocks db root = 2 ∧
      (∃ element after, EverDb.arrayPop (edbApi 3) root db = .ok element after ∧
        element.length = 255 ∧ db.ctl.nblocks < after.ctl.nblocks) ∧
      arrayPop (edbApi 3) root ⟨db, 0, fun call => call == 1⟩ = .stuck ∧
      ¬Code.Relocatable (arrayPop (edbApi 3) root) db := by
  have run : (laterArray emptyFile).passes (fun root db =>
      (EverDb.arrayPop (edbApi 3) root db).passes (fun element after =>
        ptNblocks db root == 2 && element.length == 255 &&
          decide (db.ctl.nblocks < after.ctl.nblocks)) &&
      !(arrayPop (edbApi 3) root ⟨db, 0, fun call => call == 1⟩).passes (fun _ _ => true) &&
      !(arrayPop (edbApi 3) root ⟨db, 0, fun call => call == 1⟩).fails) = true := by
    decide +kernel
  obtain ⟨root, db, ran, holds⟩ := Outcome.of_passes run
  simp only [Bool.and_eq_true, Bool.not_eq_true'] at holds
  obtain ⟨⟨plain, unreturned⟩, unrefused⟩ := holds
  obtain ⟨element, after, popped, facts⟩ := Outcome.of_passes plain
  simp only [Bool.and_eq_true, beq_iff_eq, decide_eq_true_eq] at facts
  obtain ⟨⟨count, bytes⟩, grown⟩ := facts
  have trapped : arrayPop (edbApi 3) root ⟨db, 0, fun call => call == 1⟩ = .stuck :=
    Outcome.eq_stuck unreturned unrefused
  refine ⟨root, db, ran, count, ⟨element, after, popped, bytes, grown⟩, trapped, fun same => ?_⟩
  rw [Code.Follows.relocatable_iff fun _ => arrayPop_follows (edbApi 3) root] at same
  have result := same 0 fun call => call == 1
  rw [trapped, popped] at result
  cases result

end EverDb.Pointer
