import EverDb.Array.Rep

/-!
# Reading and writing elements

The capacity of an array and the place of an element: `array_get` reads the element
of the list there and `array_set` replaces it.
-/

namespace EverDb

open Foundation

variable {ρ : Type} {api : BlockApi (Db ρ)} {contract : BlockContract api} {own : Ownership}
  {db : Db ρ} {root size limit : Nat} {blocks indexes : List Nat} {elems : List (List UInt8)}

theorem ArrayRep.header (array : ArrayRep contract limit own db root size elems) :
    ArrayHeader db root size elems.length := by
  cases array with
  | small array room => exact array.header
  | paged blocks indexes array within room => exact array.header

theorem divide_run {σ : Type} {left right : Nat} (positive : 0 < right) (state : σ) :
    divide left right state = .ok (left / right) state := by
  simp [divide, Nat.ne_of_gt positive]

/-- `array_capacity` of an array inside its root. -/
theorem SmallArray.capacity (array : SmallArray contract own db root size elems)
    (positive : 0 < size) : arrayCapacity root db = .ok (smallCapacity size) db := by
  unfold arrayCapacity
  rw [load_bind, array.count, Code.gets_bind, ptItemSize, array.header.itemSize, if_pos rfl,
    divide_run positive]

/-- `array_capacity` of a paged array. -/
theorem HeldTable.capacity (held : HeldTable contract own db root 509 blocks indexes)
    (filled : blocks ≠ []) (itemSize : ptItemSize db root = size) (positive : 0 < size) :
    arrayCapacity root db = .ok (blocks.length * itemsPerBlock size) db := by
  have count := held.table.count
  have fits := held.table.fits
  have nonempty : blocks.length ≠ 0 := fun none => filled (List.eq_nil_of_length_eq_zero none)
  have bounded : blocks.length * itemsPerBlock size ≤ 521728 * 4096 :=
    Nat.mul_le_mul (by omega) (Nat.div_le_self _ _)
  unfold arrayCapacity
  rw [load_bind, count, Code.gets_bind, itemSize, if_neg nonempty,
    Code.bind_ok (divide_run positive db)]
  change Outcome.ok (u32 (blocks.length * itemsPerBlock size)) db = _
  rw [u32_of_lt (by omega)]

theorem PagedArray.capacity (array : PagedArray contract own db root size blocks indexes elems)
    (positive : 0 < size) :
    arrayCapacity root db = .ok (blocks.length * itemsPerBlock size) db :=
  array.held.capacity array.nonempty array.header.itemSize positive

/-- The place of an element: its bytes are there, and writing there replaces it. -/
structure Place (contract : BlockContract api) (limit : Nat) (own : Ownership) (db : Db ρ)
    (root size : Nat) (elems : List (List UInt8)) (i block offset : Nat) : Prop where
  bytes : elems[i]? = some ((db.data block).slice offset size)
  replace : ∀ buffer, ArrayRep contract limit own
    (db.write block ((db.data block).blit offset buffer 0 size)) root size
    (elems.set i (buffer.slice 0 size))

theorem arrayData_none (array : ArrayRep contract limit own db root size elems) {i : Nat}
    (outside : elems.length ≤ i) : arrayData api root i db = .ok none db := by
  unfold arrayData
  rw [load_bind, array.header.length, if_pos outside]
  rfl

/-- `array_get` inside the root calls no block function. -/
theorem arrayGet_inline (api : BlockApi (Db ρ)) (count : ptNblocks db root = 0)
    (itemSize : ptItemSize db root = size) {i : Nat} (inside : i < arrayLength db root) :
    arrayGet api root i db = .ok ((db.data root).slice (i * size) size) db := by
  have none : (db.data root).word nblocksWord = 0 := count
  have length : (db.data root).word lengthWord = arrayLength db root := rfl
  have place : arrayData api root i db = .ok (some (root, i * size)) db := by
    unfold arrayData
    rw [load_bind, length, if_neg (Nat.not_le_of_lt inside), load_bind, none,
      Code.gets_bind, itemSize, if_pos rfl]
    rfl
  unfold arrayGet
  rw [Code.bind_ok place]
  simp only [Code.gets_run, itemSize]

/-- An index that is out of bounds is refused before anything is read. -/
theorem arrayGet_outside (api : BlockApi (Db ρ)) {i : Nat} (outside : arrayLength db root ≤ i) :
    arrayGet api root i db = .error errArrayIndexOutOfBounds db := by
  have length : (db.data root).word lengthWord = arrayLength db root := rfl
  have place : arrayData api root i db = .ok none db := by
    unfold arrayData
    rw [load_bind, length, if_pos outside]
    rfl
  unfold arrayGet
  rw [Code.bind_ok place]
  rfl

/-- An element inside the root. -/
theorem SmallArray.place (array : SmallArray contract own db root size elems)
    (room : 3 * limit ≤ own.room) (positive : 0 < size) {i : Nat} (inside : i < elems.length) :
    arrayData api root i db = .ok (some (root, i * size)) db ∧
      Place contract limit own db root size elems i root (i * size) := by
  have header := array.header
  have bound := small_element_bound inside array.fits
  have whole := (small_bytes positive).1
  have liveRoot := (contract.wf array.valid).writable_live _ array.writable
  refine ⟨?_, ?_, ?_⟩
  · unfold arrayData
    rw [load_bind, header.length, if_neg (by omega), load_bind, array.count, Code.gets_bind,
      ptItemSize, header.itemSize, if_pos rfl]
    rfl
  · have found := List.getElem?_eq_getElem inside
    rw [found, array.elements i _ found]
  · intro buffer
    refine .small ⟨contract.write array.valid liveRoot _, array.writable, ?_, ⟨?_, ?_⟩, ?_, ?_, ?_⟩
      room
    · rw [Db.write_data_self, Image.word_blit_outside (by omega), array.count]
    · rw [Db.write_data_self, Image.blit_outside (by omega), header.itemSize]
    · rw [Db.write_data_self, Image.word_blit_outside (by omega), header.length, List.length_set]
    · rw [List.length_set]
      exact array.fits
    · intro j element found
      rw [Db.write_data_self]
      by_cases same : j = i
      · subst same
        rw [List.getElem?_set_self inside, Option.some.injEq] at found
        rw [Image.slice_blit_self, found]
      · rw [List.getElem?_set_ne (Ne.symm same)] at found
        rw [Image.slice_blit_outside (elements_apart same)]
        exact array.elements j element found
    · intro offset low high
      rw [Db.write_data_self, Image.blit_outside (by omega)]
      exact array.trailing offset low high

/-- An element in a data block. -/
theorem PagedArray.place (array : PagedArray contract own db root size blocks indexes elems)
    (within : blocks.length ≤ limit) (room : 3 * limit ≤ own.room + blocks.length + indexes.length)
    (positive : 0 < size) (small : size ≤ 255) {i : Nat} (inside : i < elems.length) :
    ∃ block, arrayData api root i db =
        .ok (some (block, i % itemsPerBlock size * size)) db ∧
      Place contract limit own db root size elems i block (i % itemsPerBlock size * size) := by
  have header := array.header
  have held := array.held
  have perBlock := itemsPerBlock_bounds positive small
  have bound := block_element_bound (Nat.mod_lt i (show 0 < itemsPerBlock size by omega))
  have nonempty : blocks.length ≠ 0 :=
    fun none => array.nonempty (List.eq_nil_of_length_eq_zero none)
  obtain ⟨block, here⟩ := array.exists_block inside
  have member := List.mem_of_getElem? here
  have found := List.getElem?_eq_getElem inside
  have notRoot : root ≠ block := by
    rintro rfl
    exact held.root_not_mem (by simp [member])
  have distinct := List.nodup_append.mp (List.nodup_cons.mp held.distinct).2
  refine ⟨block, ?_, ?_, ?_⟩
  · unfold arrayData
    rw [load_bind, header.length, if_neg (by omega), load_bind, held.table.count, Code.gets_bind,
      ptItemSize, header.itemSize, if_neg nonempty, Code.bind_ok (divide_run positive db)]
    have page :
        orAbort (pageWriteHostIndex api root (i / itemsPerBlock size)) db = .ok block db := by
      unfold orAbort
      rw [pageWriteHostIndex_of_writable held array.writable here]
    rw [Code.bind_ok page, Code.gets_bind, ptItemSize, header.itemSize]
    rfl
  · rw [found, array.elements i _ block found here]
  · intro buffer
    refine .paged blocks indexes ⟨held.write_block member _, array.nonempty,
      array.writable, ⟨?_, ?_⟩, ?_, ?_⟩ within room
    · rw [Db.write_data_of_ne notRoot, header.itemSize]
    · rw [Db.write_data_of_ne notRoot, header.length, List.length_set]
    · rw [List.length_set]
      exact array.fits
    · intro j element other foundOther there
      by_cases same : j = i
      · subst same
        rw [here, Option.some.injEq] at there
        subst there
        rw [List.getElem?_set_self inside, Option.some.injEq] at foundOther
        rw [Db.write_data_self, Image.slice_blit_self, foundOther]
      · rw [List.getElem?_set_ne (Ne.symm same)] at foundOther
        have old := array.elements j element other foundOther there
        by_cases sameBlock : other = block
        · -- another slot of the same block
          subst sameBlock
          have quotient : j / itemsPerBlock size = i / itemsPerBlock size :=
            (List.getElem?_inj (List.getElem?_eq_some_iff.mp there).1 distinct.1).mp
              (there.trans here.symm)
          have slots : j % itemsPerBlock size ≠ i % itemsPerBlock size := by
            intro remainder
            apply same
            rw [← Nat.div_add_mod j (itemsPerBlock size), quotient, remainder, Nat.div_add_mod]
          rw [Db.write_data_self, Image.slice_blit_outside (elements_apart slots), old]
        · rw [Db.write_data_of_ne sameBlock, old]

/-- The place of every element. -/
theorem ArrayRep.place (array : ArrayRep contract limit own db root size elems)
    (positive : 0 < size) (small : size ≤ 255) {i : Nat} (inside : i < elems.length) :
    ∃ block offset, arrayData api root i db = .ok (some (block, offset)) db ∧
      Place contract limit own db root size elems i block offset := by
  cases array with
  | small array room => exact ⟨root, _, array.place room positive inside⟩
  | paged blocks indexes array within room =>
      obtain ⟨block, ran, place⟩ := array.place within room positive small inside
      exact ⟨block, _, ran, place⟩

/-- `array_get` reads the list. -/
theorem arrayGet_spec (array : ArrayRep contract limit own db root size elems) (positive : 0 < size)
    (small : size ≤ 255) (i : Nat) :
    arrayGet api root i db =
      match elems[i]? with
      | some element => .ok element db
      | none => .error errArrayIndexOutOfBounds db := by
  unfold arrayGet
  by_cases inside : i < elems.length
  · obtain ⟨block, offset, ran, place⟩ := array.place positive small inside
    rw [Code.bind_ok ran, place.bytes]
    simp only [Code.gets_run, ptItemSize, array.header.itemSize]
  · rw [Code.bind_ok (arrayData_none array (by omega)), List.getElem?_eq_none (by omega)]
    rfl

/-- `array_set` replaces an element of the list. -/
theorem arraySet_spec (array : ArrayRep contract limit own db root size elems) (positive : 0 < size)
    (small : size ≤ 255) (i : Nat) (buffer : Image) :
    (i < elems.length → ∃ after, arraySet api root i buffer db = .ok () after ∧
      ArrayRep contract limit own after root size (elems.set i (buffer.slice 0 size))) ∧
    (elems.length ≤ i → arraySet api root i buffer db = .error errArrayIndexOutOfBounds db) := by
  constructor
  · intro inside
    obtain ⟨block, offset, ran, place⟩ := array.place positive small inside
    refine ⟨_, ?_, place.replace buffer⟩
    unfold arraySet
    rw [Code.bind_ok ran]
    simp only [Code.update_run, ptItemSize, array.header.itemSize]
  · intro outside
    unfold arraySet
    rw [Code.bind_ok (arrayData_none array outside)]
    rfl

end EverDb
