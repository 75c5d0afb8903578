import EverDb.Array.Model
import EverDb.Page.Resize

/-!
# Arrays as lists of elements

`ArrayRep` reads an array's root as the list of its elements, each a list of
`item_size` bytes. `SmallArray` is the layout inside the root and `PagedArray` the
one in the data blocks of a page table. All blocks of the array are writable, as
they are when the open transaction allocated them.
-/

namespace EverDb

open Foundation

variable {ρ : Type} {api : BlockApi (Db ρ)} {contract : BlockContract api} {own : Ownership}
  {db : Db ρ} {root size : Nat} {blocks indexes : List Nat} {elems : List (List UInt8)}

/-- The number of elements that fit inside the root. -/
abbrev smallCapacity (size : Nat) : Nat := 4084 / size

/-- The number of elements in a data block. -/
abbrev itemsPerBlock (size : Nat) : Nat := 4096 / size

/-- The array header of a root. -/
structure ArrayHeader (db : Db ρ) (root size length : Nat) : Prop where
  itemSize : (db.data root 4084).toNat = size
  length : (db.data root).word 1022 = length

/-- The elements lie inside the root. The bytes behind the last whole element are
zero, since the root becomes a page table when the array grows. -/
structure SmallArray (contract : BlockContract api) (own : Ownership) (db : Db ρ) (root size : Nat)
    (elems : List (List UInt8)) : Prop where
  valid : contract.Valid own db
  writable : own.writable root
  count : (db.data root).word 1023 = 0
  header : ArrayHeader db root size elems.length
  fits : elems.length ≤ smallCapacity size
  elements : ∀ i element, elems[i]? = some element → (db.data root).slice (i * size) size = element
  trailing : ∀ offset, smallCapacity size * size ≤ offset → offset < 4084 → db.data root offset = 0

/-- The elements lie in the data blocks. -/
structure PagedArray (contract : BlockContract api) (own : Ownership) (db : Db ρ) (root size : Nat)
    (blocks indexes : List Nat) (elems : List (List UInt8)) : Prop where
  held : HeldTable contract own db root 509 blocks indexes
  nonempty : blocks ≠ []
  writable : ∀ block ∈ blocks ++ indexes, own.writable block
  header : ArrayHeader db root size elems.length
  fits : elems.length ≤ blocks.length * itemsPerBlock size
  elements : ∀ i element block, elems[i]? = some element →
    blocks[i / itemsPerBlock size]? = some block →
    (db.data block).slice (i % itemsPerBlock size * size) size = element

/-- An array that never needs more than `limit` data blocks, and an allocator that
can deliver them: `3 * limit` is room for a data block and two more each, and the index
blocks are fewer. -/
inductive ArrayRep (contract : BlockContract api) (limit : Nat) (own : Ownership) (db : Db ρ)
    (root size : Nat) (elems : List (List UInt8)) : Prop
  | small (array : SmallArray contract own db root size elems) (room : 3 * limit ≤ own.room)
  | paged (blocks indexes : List Nat)
      (array : PagedArray contract own db root size blocks indexes elems)
      (within : blocks.length ≤ limit)
      (room : 3 * limit ≤ own.room + blocks.length + indexes.length)

theorem small_bytes (positive : 0 < size) :
    smallCapacity size * size ≤ 4084 ∧ 4084 < smallCapacity size * size + size :=
  ⟨Nat.div_mul_le_self _ _, Nat.lt_div_mul_add positive⟩

theorem itemsPerBlock_bounds (positive : 0 < size) (small : size ≤ 255) :
    16 ≤ itemsPerBlock size ∧ itemsPerBlock size ≤ 4096 :=
  ⟨(Nat.le_div_iff_mul_le positive).mpr (by omega), Nat.div_le_self _ _⟩

theorem smallCapacity_le (size : Nat) : smallCapacity size ≤ itemsPerBlock size :=
  Nat.div_le_div_right (by decide)

/-- An element inside the root ends before the header. -/
theorem small_element_bound {i count : Nat} (inside : i < count)
    (fits : count ≤ smallCapacity size) :
    i * size + size ≤ smallCapacity size * size := by
  have step : (i + 1) * size ≤ smallCapacity size * size := Nat.mul_le_mul_right _ (by omega)
  rwa [Nat.succ_mul] at step

/-- The element of a data block ends inside the block. -/
theorem block_element_bound {i : Nat} (inside : i < itemsPerBlock size) :
    i * size + size ≤ 4096 := by
  have step : (i + 1) * size ≤ itemsPerBlock size * size := Nat.mul_le_mul_right _ inside
  rw [Nat.succ_mul] at step
  exact Nat.le_trans step (Nat.div_mul_le_self _ _)

/-- Different elements of one block do not overlap. -/
theorem elements_apart {i j : Nat} (apart : i ≠ j) :
    i * size + size ≤ j * size ∨ j * size + size ≤ i * size := by
  rcases Nat.lt_or_gt_of_ne apart with less | more
  · left
    have := Nat.mul_le_mul_right size (Nat.succ_le_of_lt less)
    rwa [Nat.succ_mul] at this
  · right
    have := Nat.mul_le_mul_right size (Nat.succ_le_of_lt more)
    rwa [Nat.succ_mul] at this

namespace PagedArray

/-- Every index below the length has its data block. -/
theorem exists_block (array : PagedArray contract own db root size blocks indexes elems) {i : Nat}
    (inside : i < elems.length) : ∃ block, blocks[i / itemsPerBlock size]? = some block := by
  have within : i / itemsPerBlock size < blocks.length := by
    apply Nat.div_lt_of_lt_mul
    rw [Nat.mul_comm]
    exact Nat.lt_of_lt_of_le inside array.fits
  exact ⟨_, List.getElem?_eq_getElem within⟩

end PagedArray

/-- Setting the length to that of a list of elements that the root holds. -/
theorem SmallArray.of_length (valid : contract.Valid own db) (writable : own.writable root)
    (count : (db.data root).word 1023 = 0) (itemSize : (db.data root 4084).toNat = size)
    (positive : 0 < size) (fits : elems.length ≤ smallCapacity size)
    (elements : ∀ i element, elems[i]? = some element →
      (db.data root).slice (i * size) size = element)
    (trailing : ∀ offset, smallCapacity size * size ≤ offset → offset < 4084 →
      db.data root offset = 0) :
    SmallArray contract own (db.setWord root 1022 elems.length) root size elems := by
  have rootLive := (contract.wf valid).writable_live _ writable
  have bytes := (small_bytes positive).1
  have capacity : smallCapacity size ≤ 4084 := Nat.div_le_self _ _
  refine ⟨contract.write valid rootLive _, writable, ?_, ⟨?_, ?_⟩, fits, ?_, ?_⟩
  · rw [Db.setWord_data_self, Image.word_setWord_of_ne (by decide), count]
  · rw [Db.setWord_data_self, Image.setWord_byte_of_ne (by decide), itemSize]
  · rw [Db.setWord_data_self, Image.word_setWord_self (by omega)]
  · intro i element found
    obtain ⟨inside, _⟩ := List.getElem?_eq_some_iff.mp found
    have bound := small_element_bound inside fits
    rw [Db.setWord_data_self, Image.slice_setWord_outside (by omega)]
    exact elements i element found
  · intro offset low high
    rw [Db.setWord_data_self, Image.setWord_byte_of_ne (by omega)]
    exact trailing offset low high

/-- Setting the length to that of a list of elements that the blocks hold. -/
theorem PagedArray.of_length (held : HeldTable contract own db root 509 blocks indexes)
    (nonempty : blocks ≠ []) (writable : ∀ block ∈ blocks ++ indexes, own.writable block)
    (itemSize : (db.data root 4084).toNat = size)
    (fits : elems.length ≤ blocks.length * itemsPerBlock size)
    (elements : ∀ i element block, elems[i]? = some element →
      blocks[i / itemsPerBlock size]? = some block →
      (db.data block).slice (i % itemsPerBlock size * size) size = element) :
    PagedArray contract own (db.setWord root 1022 elems.length) root size blocks indexes elems := by
  have table := held.table
  have total := table.fits
  have bounded : blocks.length * itemsPerBlock size ≤ 521728 * 4096 :=
    Nat.mul_le_mul (by omega) (Nat.div_le_self _ _)
  have rootLive := (contract.wf held.valid).writable_live _ held.writable
  have word : ∀ i, i ≠ 1022 →
      ((db.setWord root 1022 elems.length).data root).word i = (db.data root).word i := by
    intro i other
    rw [Db.setWord_data_self, Image.word_setWord_of_ne other]
  have others : ∀ other ∈ blocks ++ indexes,
      (db.setWord root 1022 elems.length).data other = db.data other := by
    intro other member
    refine Db.setWord_data_of_ne ?_
    rintro rfl
    exact held.root_not_mem member
  refine ⟨⟨contract.write held.valid rootLive _,
    ⟨?_, table.limited, table.fits, table.spans, ?_, ?_,
    ?_, ?_⟩, held.writable, held.live, held.distinct⟩, nonempty, writable, ⟨?_, ?_⟩, fits,
    ?_⟩
  · rw [word _ (by decide), table.count]
  · intro i block low found
    rw [word _ (by omega)]
    exact table.direct i block low found
  · intro j block found
    obtain ⟨inside, _⟩ := List.getElem?_eq_some_iff.mp found
    have := table.spans
    rw [indexCount] at this
    rw [word _ (by omega)]
    exact table.index j block found
  · intro i block index low found there
    rw [others index (by simp [List.mem_of_getElem? there])]
    exact table.entry i block index low found there
  · intro j low high
    rw [word _ (by omega)]
    exact table.clear j low high
  · rw [Db.setWord_data_self, Image.setWord_byte_of_ne (by decide), itemSize]
  · rw [Db.setWord_data_self, Image.word_setWord_self (by omega)]
  · intro i element block found there
    rw [others block (by simp [List.mem_of_getElem? there])]
    exact elements i element block found there

theorem getElem?_of_take {count i : Nat} {element : List UInt8}
    (found : (elems.take count)[i]? = some element) : elems[i]? = some element := by
  rw [List.getElem?_take] at found
  split at found
  · exact found
  · cases found

/-- Cutting the list short. -/
theorem ArrayRep.shorten {limit count : Nat}
    (array : ArrayRep contract limit own db root size elems)
    (positive : 0 < size) (shorter : count ≤ elems.length) :
    ArrayRep contract limit own (db.setWord root 1022 count) root size (elems.take count) := by
  have length : (elems.take count).length = count := by
    rw [List.length_take]
    omega
  cases array with
  | small array room =>
      have fits := array.fits
      have cut := SmallArray.of_length array.valid array.writable array.count array.header.itemSize
        positive (show (elems.take count).length ≤ _ by omega)
        (fun i element found => array.elements i element (getElem?_of_take found)) array.trailing
      rw [length] at cut
      exact .small cut room
  | paged blocks indexes array within room =>
      have fits := array.fits
      have cut :=
        PagedArray.of_length array.held array.nonempty array.writable array.header.itemSize
        (show (elems.take count).length ≤ _ by omega)
        fun i element block found => array.elements i element block (getElem?_of_take found)
      rw [length] at cut
      exact .paged blocks indexes cut within room

/-- With every block writable, `page_write_host_index` reads the list and changes
nothing. -/
theorem pageWriteHostIndex_of_writable {limit i block : Nat}
    (held : HeldTable contract own db root limit blocks indexes)
    (writable : ∀ block ∈ blocks ++ indexes, own.writable block) (found : blocks[i]? = some block) :
    pageWriteHostIndex api root i db = .ok block db := by
  have table := held.table
  obtain ⟨inside, _⟩ := List.getElem?_eq_some_iff.mp found
  have bounded := table.length_lt
  have present : ¬i ≥ blocks.length := by omega
  have nonempty : blocks.length ≠ 0 := by omega
  have rootSame := contract.modify_writable held.valid held.writable
  have blockSame := contract.modify_writable held.valid
    (writable block (by simp [List.mem_of_getElem? found]))
  unfold pageWriteHostIndex
  rw [load_bind, table.count, if_neg present, if_neg nonempty]
  by_cases low : i < 512
  · rw [if_pos low, Code.bind_ok rootSame, load_bind, table.direct i block low found, blockSame]
  · obtain ⟨index, there⟩ := table.exists_index (by omega) inside
    have indexSame := contract.modify_writable held.valid
      (writable index (by simp [List.mem_of_getElem? there]))
    have first : indexWord (index0 i) = 512 + (i - 512) / 1024 := by
      rw [index0_eq (by omega) (by omega)]
      rfl
    rw [if_neg low, Code.bind_ok rootSame, load_bind, first, table.index _ _ there,
      Code.bind_ok indexSame, load_bind, index1_eq (by omega) (by omega),
      table.entry i block index (by omega) found there, blockSame]

end EverDb
