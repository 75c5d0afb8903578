import EverDb.Array.Access
import EverDb.Txn.Tracks

/-!
# Reading an array

`array_get` looks its page up with `page_write_host_index`, which asks
`edb_modify_block` for writable blocks. So only an array inside its root is read
without side effects: outside a transaction the read of a paged one aborts.
-/

namespace EverDb

open Foundation

variable {db : EdbDb} {root size i : Nat} {elems : List (List UInt8)}

/-- An array in a database, whoever owns its blocks. -/
inductive StoredArray (db : EdbDb) (root size : Nat) (elems : List (List UInt8)) : Prop
  | small (count : ptNblocks db root = 0) (header : ArrayHeader db root size elems.length)
      (fits : elems.length ≤ smallCapacity size)
      (elements : ∀ i element, elems[i]? = some element →
        (db.data root).slice (i * size) size = element)
  | paged (blocks indexes : List Nat) (table : PageTable db root 509 blocks indexes)
      (nonempty : blocks ≠ []) (header : ArrayHeader db root size elems.length)
      (fits : elems.length ≤ blocks.length * itemsPerBlock size)
      (elements : ∀ i element block, elems[i]? = some element →
        blocks[i / itemsPerBlock size]? = some block →
        (db.data block).slice (i % itemsPerBlock size * size) size = element)

theorem StoredArray.header (stored : StoredArray db root size elems) :
    ArrayHeader db root size elems.length := by
  cases stored with
  | small count header fits elements => exact header
  | paged blocks indexes table nonempty header fits elements => exact header

/-- Reading index `i` of a committed array yields the element and leaves the database
as it is, before a transaction and in every state of one that has left the root alone. -/
structure ReadsPurely (depth : Nat) (db : EdbDb) (root i : Nat) (element : List UInt8) : Prop where
  closed : arrayGet (edbApi depth) root i db = .ok element db
  opened : ∀ begun inside, edbTxnBegin depth db = .ok () begun →
    inside.data root = begun.data root →
    arrayGet (edbApi depth) root i inside = .ok element inside

/-- `edb_txn_begin` writes to the second freelist root and to no other block. -/
theorem edbTxnBegin_data {depth : Nat} {begun : EdbDb} (closed : db.ctl.txn = [])
    (began : edbTxnBegin depth db = .ok () begun) {block : Nat}
    (apart : block ≠ edbFreelistSecondary) :
    begun.data block = db.data block := by
  obtain ⟨_, start, required, entering⟩ := Code.of_bind_ok began
  have same : start = db := by
    unfold requireWritable at required
    rw [Code.gets_bind] at required
    split at required
    · cases required
    · cases required
      rfl
  rw [same] at entering
  unfold txnBegin at entering
  rw [Code.gets_bind, closed, if_pos (by rfl)] at entering
  obtain ⟨_, table, opened, mastering⟩ := Code.of_bind_ok entering
  cases opened
  obtain ⟨_, master, mastered, numbered⟩ := Code.of_bind_ok mastering
  cases numbered
  unfold txnBeginMaster at mastered
  rw [Code.gets_bind, Code.gets_bind] at mastered
  split at mastered
  · cases mastered
  · split at mastered
    · cases mastered
    · obtain ⟨_, copied, copy, marking⟩ := Code.of_bind_ok mastered
      obtain rfl := copyMapped_ok copy
      obtain ⟨_, marked, setting, last⟩ := Code.of_bind_ok marking
      cases last
      obtain ⟨blocks, found, looked, stored⟩ := Code.of_bind_ok setting
      cases stored
      generalize memHashSet _ _ _ = entered at looked
      cases entered with
      | none => cases looked
      | some table =>
          cases looked
          exact Db.write_data_of_ne apart

/-- Outside a transaction a block function refuses, and the read aborts. -/
theorem arrayGet_paged_closed (depth : Nat) (closed : db.ctl.txn = [])
    (itemSize : ptItemSize db root = size) (positive : 0 < size) (inside : i < arrayLength db root)
    (within : i / itemsPerBlock size < ptNblocks db root) :
    arrayGet (edbApi depth) root i db = .stuck := by
  have length : (db.data root).word lengthWord = arrayLength db root := rfl
  have count : (db.data root).word nblocksWord = ptNblocks db root := rfl
  have some : ptNblocks db root ≠ 0 := Nat.ne_of_gt (Nat.lt_of_le_of_lt (Nat.zero_le _) within)
  have refused :
      ∀ next : Nat → Code EdbDb Nat, orAbort ((edbApi depth).modify root >>= next) db = .stuck := by
    intro next
    cases depth with
    | zero => rfl
    | succ depth =>
        have fails : (edbApi (depth + 1)).modify root db = .error edbErrTxnNoTransaction db :=
          Code.bind_error (requireTxn_none closed)
        unfold orAbort
        rw [Code.bind_error fails]
  have page :
      orAbort (pageWriteHostIndex (edbApi depth) root (i / itemsPerBlock size)) db = .stuck := by
    have start : pageWriteHostIndex (edbApi depth) root (i / itemsPerBlock size) db =
        ((edbApi depth).modify root >>= fun root =>
          if i / itemsPerBlock size < levelOne then do
            let block ← load root (i / itemsPerBlock size)
            (edbApi depth).modify block
          else do
            let indexBlock ← load root (indexWord (index0 (i / itemsPerBlock size)))
            let indexBlock ← (edbApi depth).modify indexBlock
            let block ← load indexBlock (index1 (i / itemsPerBlock size))
            (edbApi depth).modify block) db := by
      unfold pageWriteHostIndex
      rw [load_bind, count, if_neg (by omega), if_neg some]
      by_cases low : i / itemsPerBlock size < levelOne
      · simp only [if_pos low]
      · simp only [if_neg low]
    have stuck := refused fun root =>
      if i / itemsPerBlock size < levelOne then do
        let block ← load root (i / itemsPerBlock size)
        (edbApi depth).modify block
      else do
        let indexBlock ← load root (indexWord (index0 (i / itemsPerBlock size)))
        let indexBlock ← (edbApi depth).modify indexBlock
        let block ← load indexBlock (index1 (i / itemsPerBlock size))
        (edbApi depth).modify block
    unfold orAbort at stuck ⊢
    rw [start]
    exact stuck
  have place : arrayData (edbApi depth) root i db = .stuck := by
    unfold arrayData
    rw [load_bind, length, if_neg (by omega), load_bind, count, Code.gets_bind,
      itemSize, if_neg some, Code.bind_ok (divide_run positive db), Code.bind_stuck page]
  unfold arrayGet
  rw [Code.bind_stuck place]

/-- A committed array is read without side effects exactly when it lies in its root. -/
theorem arrayGet_readsPurely_iff (depth : Nat) (stored : StoredArray db root size elems)
    (positive : 0 < size) (closed : db.ctl.txn = []) (apart : root ≠ edbFreelistSecondary)
    {element : List UInt8} (found : elems[i]? = some element) :
    ReadsPurely depth db root i element ↔ ptNblocks db root = 0 := by
  obtain ⟨inside, _⟩ := List.getElem?_eq_some_iff.mp found
  constructor
  · intro pure
    cases stored with
    | small count header fits elements => exact count
    | paged blocks indexes table nonempty header fits elements =>
        have within : i / itemsPerBlock size < blocks.length :=
          Nat.div_lt_of_lt_mul (by rw [Nat.mul_comm]; omega)
        have read := pure.closed
        rw [arrayGet_paged_closed depth closed header.itemSize positive
          (by rw [arrayLength, header.length]; exact inside)
          (by rw [ptNblocks, table.count]; exact within)] at read
        cases read
  · intro count
    cases stored with
    | small _ header fits elements =>
        have length : i < arrayLength db root := by
          rw [arrayLength, header.length]
          exact inside
        have read := elements i element found
        refine ⟨?_, ?_⟩
        · rw [arrayGet_inline (edbApi depth) count header.itemSize length, read]
        · intro begun inside began untouched
          have same := untouched.trans (edbTxnBegin_data closed began apart)
          have sameCount : ptNblocks inside root = 0 := by
            rw [ptNblocks, same]
            exact count
          have sameSize : ptItemSize inside root = size := by
            rw [ptItemSize, same]
            exact header.itemSize
          have sameLength : i < arrayLength inside root := by
            rw [arrayLength, same]
            exact length
          rw [arrayGet_inline (edbApi depth) sameCount sameSize sameLength, same, read]
    | paged blocks indexes table nonempty header fits elements =>
        exact absurd (List.eq_nil_of_length_eq_zero (table.count.symm.trans count)) nonempty

/-- An open file of five blocks, the last of which is a committed array of three 4-byte elements
inside its root. -/
def inlineFile : EdbDb where
  data := fun block =>
    if block = 4 then
      ((((Image.zero.setWord 0 7).setWord 1 8).setWord 2 9).setWord lengthWord 3).setByte
      itemSizeByte 4
    else Image.zero
  ctl := { closedEdb grantingOs with
    mapped := true, protWrite := true, filesize := 20480, nblocks := 5,
      freelist := 1, objlist := 3 }

theorem inlineFile_stored :
    StoredArray inlineFile 4 4 [[7, 0, 0, 0], [8, 0, 0, 0], [9, 0, 0, 0]] := by
  refine .small (by decide) ⟨by decide, by decide⟩ (by decide) ?_
  intro i element found
  rcases i with _ | _ | _ | i
  · cases found
    decide
  · cases found
    decide
  · cases found
    decide
  · simp at found

/-- An element of the array inside its root is read the same way before a transaction and in it. -/
theorem arrayGet_readsPurely_iff_inline : ReadsPurely 3 inlineFile 4 1 [8, 0, 0, 0] ∧
    ∃ begun, edbTxnBegin 3 inlineFile = .ok () begun ∧
      arrayGet (edbApi 3) 4 1 begun = .ok [8, 0, 0, 0] begun := by
  have pure : ReadsPurely 3 inlineFile 4 1 [8, 0, 0, 0] :=
    (arrayGet_readsPurely_iff 3 inlineFile_stored (by decide) rfl (by decide) rfl).mpr (by decide)
  have begins : (edbTxnBegin 3 inlineFile).passes (fun _ _ => true) = true := by decide +kernel
  obtain ⟨_, begun, ran, _⟩ := Outcome.of_passes begins
  exact ⟨pure, begun, ran, pure.opened begun begun ran rfl⟩

/-- A new database with an array of one 255-byte element that was resized to room for
17, which makes it paged, and committed. -/
def pagedFile : Code EdbDb Nat := do
  edbOpenNew
  edbTxnBegin 3
  let root ← edbAllocateBlock 3
  arrayInit root 255
  arrayResize (edbApi 3) root 17
  arrayPush (edbApi 3) root (Image.zero.setByte 0 7)
  edbTxnCommit 3
  pure root

/-- Reading that element after the commit aborts. -/
theorem arrayGet_aborts :
    ∃ root db, pagedFile emptyFile = .ok root db ∧ db.ctl.txn = [] ∧ arrayLength db root = 1 ∧
      arrayGet (edbApi 3) root 0 db = .stuck := by
  have run :
      (pagedFile emptyFile).passes (fun root db => db.ctl.txn.isEmpty && arrayLength db root == 1 &&
      ptNblocks db root == 2 && ptItemSize db root == 255) = true := by
    decide +kernel
  obtain ⟨root, db, ran, holds⟩ := Outcome.of_passes run
  simp only [Bool.and_eq_true, List.isEmpty_iff, beq_iff_eq] at holds
  obtain ⟨⟨⟨closed, length⟩, count⟩, itemSize⟩ := holds
  refine ⟨root, db, ran, closed, length, ?_⟩
  exact arrayGet_paged_closed 3 closed itemSize (by decide) (by rw [length]; decide)
    (by rw [count]; decide)

end EverDb
