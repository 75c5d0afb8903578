import EverDb.Array.Resize
import EverDb.Page.Lookup

/-!
# Arrays with committed pages

In a later transaction the root of an array is writable and its pages are not: the pages
are copied when an element is asked for. The calls still return.
-/

namespace EverDb

open Foundation

variable {ρ : Type} {api : BlockApi (Db ρ)} {contract : BlockContract api}
  {own : Ownership} {db : Db ρ}
  {root size length index : Nat} {blocks indexes : List Nat} {elems : List (List UInt8)}

/-- The root of a paged array, whose pages may be committed. -/
structure OpenPages (contract : BlockContract api) (own : Ownership) (db : Db ρ)
    (root size length : Nat) (blocks indexes : List Nat) : Prop where
  held : HeldTable contract own db root 509 blocks indexes
  nonempty : blocks ≠ []
  header : ArrayHeader db root size length
  fits : length ≤ blocks.length * itemsPerBlock size

/-- An array in an open transaction: its root is writable. -/
inductive WritableArray (contract : BlockContract api) (own : Ownership) (db : Db ρ)
    (root size : Nat) (elems : List (List UInt8)) : Prop
  | small (array : SmallArray contract own db root size elems)
  | paged (blocks indexes : List Nat)
      (pages : OpenPages contract own db root size elems.length blocks indexes)
      (elements : ∀ i element block, elems[i]? = some element →
        blocks[i / itemsPerBlock size]? = some block →
        (db.data block).slice (i % itemsPerBlock size * size) size = element)

namespace OpenPages

theorem length_lt (pages : OpenPages contract own db root size length blocks indexes) :
    length + 1 < 4294967296 := by
  have fits := pages.fits
  have total := pages.held.table.fits
  have product : blocks.length * itemsPerBlock size ≤ 521728 * 4096 :=
    Nat.mul_le_mul (by omega) (Nat.div_le_self _ _)
  omega

theorem nblocks (pages : OpenPages contract own db root size length blocks indexes) :
    (db.data root).word nblocksWord ≠ 0 := by
  have count : (db.data root).word nblocksWord = blocks.length := pages.held.table.count
  intro none
  exact pages.nonempty (List.eq_nil_of_length_eq_zero (count.symm.trans none))

/-- The page of an element is made writable. -/
theorem page (pages : OpenPages contract own db root size length blocks indexes)
    (positive : 0 < size) (inside : index < length) (room : 2 ≤ own.room) :
    ∃ page after, arrayData api root index db =
      .ok (some (page, index % itemsPerBlock size * size)) after ∧
      ptItemSize after root = size ∧ (after.data root).word lengthWord = length := by
  have itemSize : ptItemSize db root = size := pages.header.itemSize
  have stored : (db.data root).word lengthWord = length := pages.header.length
  have within : index / itemsPerBlock size < blocks.length := by
    apply Nat.div_lt_of_lt_mul
    rw [Nat.mul_comm]
    exact Nat.lt_of_lt_of_le inside pages.fits
  have wf := contract.wf pages.held.valid
  have rootKept : own.kept root :=
    wf.usable_kept _ (wf.live_usable _ (wf.writable_live _ pages.held.writable))
  obtain ⟨later, before, ran, usable, same, _, spent⟩ :=
    pageWriteHostIndex_run pages.held.usableTable (List.getElem?_eq_getElem within) (by omega)
  have blockUsable := usable.usable blocks[index / itemsPerBlock size] (by simp)
  obtain ⟨page, last, after, modified, done⟩ := contract.modify usable.valid blockUsable (by omega)
  have wfBefore := contract.wf usable.valid
  have rootBefore : later.kept root :=
    wfBefore.usable_kept _ (wfBefore.live_usable _ (wfBefore.writable_live _ usable.writable))
  have rootSame : after.data root = db.data root :=
    (done.same root rootBefore).trans (same root rootKept)
  have itemSizeAfter : ptItemSize after root = size := by
    rw [ptItemSize, rootSame]
    exact itemSize
  refine ⟨page, after, ?_, itemSizeAfter, by rw [rootSame]; exact stored⟩
  have found :
      orAbort (pageWriteHostIndex api root (index / (blockSize / size))) db = .ok page after := by
    unfold orAbort
    rw [show blockSize / size = itemsPerBlock size from rfl, ran, modified]
  unfold arrayData
  rw [load_bind, stored, if_neg (by omega), load_bind, Code.gets_bind,
    if_neg pages.nblocks, itemSize,
    Code.bind_ok (divide_run positive db), Code.bind_ok found, Code.gets_bind, itemSizeAfter]
  rfl

/-- Raising the length below the capacity. -/
theorem lengthen (pages : OpenPages contract own db root size length blocks indexes)
    (below : length < blocks.length * itemsPerBlock size) :
    OpenPages contract own (db.setWord root lengthWord (length + 1)) root size
      (length + 1) blocks indexes := by
  have held := pages.held
  have bounded := pages.length_lt
  have table := held.table
  have rootApart : root ∉ blocks ++ indexes := held.root_not_mem
  have fits := table.fits
  have other : ∀ word, word ≠ lengthWord →
      ((db.setWord root lengthWord (length + 1)).data root).word word =
      (db.data root).word word := by
    intro word apart
    rw [Db.setWord_data_self, Image.word_setWord_of_ne apart]
  refine ⟨⟨contract.write held.valid ((contract.wf held.valid).writable_live _ held.writable) _,
    ?_, held.writable, held.live, held.distinct⟩, pages.nonempty, ⟨?_, ?_⟩, below⟩
  · refine ⟨by rw [other 1023 (by decide)]; exact table.count, table.limited, fits,
      table.spans, ?_, ?_, ?_, ?_⟩
    · intro i block low found
      rw [other i (by simp only [lengthWord]; omega)]
      exact table.direct i block low found
    · intro j block found
      obtain ⟨inside, _⟩ := List.getElem?_eq_some_iff.mp found
      have spans := table.spans
      simp only [indexCount] at spans
      rw [other (512 + j) (by simp only [lengthWord]; omega)]
      exact table.index j block found
    · intro i block index low found at_
      have apart : index ≠ root := by
        rintro rfl
        exact rootApart (List.mem_append_right _ (List.mem_of_getElem? at_))
      rw [Db.setWord, Db.write_data_of_ne apart]
      exact table.entry i block index low found at_
    · intro j above small
      rw [other (512 + j) (by simp only [lengthWord]; omega)]
      exact table.clear j above small
  · rw [Db.setWord_data_self, Image.setWord_byte_of_ne (by decide)]
    exact pages.header.itemSize
  · rw [Db.setWord_data_self]
    exact Image.word_setWord_self bounded

/-- The end of `array_push` on a paged array with room. -/
theorem store_returns (pages : OpenPages contract own db root size length blocks indexes)
    (positive : 0 < size)
    (below : length < blocks.length * itemsPerBlock size) (room : 2 ≤ own.room) (buffer : Image) :
    ∃ after, (load root lengthWord >>= fun length =>
      store root lengthWord (u32 (length + 1)) >>= fun _ =>
      load root lengthWord >>= fun length => arraySet api root (sub32 length 1) buffer)
        db = .ok () after := by
  have bounded := pages.length_lt
  have stored : (db.data root).word lengthWord = length := pages.header.length
  have longer := pages.lengthen below
  have storedAfter :
      ((db.setWord root lengthWord (length + 1)).data root).word lengthWord = length + 1 :=
    longer.header.length
  obtain ⟨page, after, found, _⟩ := longer.page positive (Nat.lt_succ_self length) room
  refine ⟨after.write page ((after.data page).blit (length % itemsPerBlock size * size) buffer 0
    (ptItemSize after root)), ?_⟩
  rw [load_bind, stored, store_bind, u32_of_lt bounded, load_bind, storedAfter,
    sub32_of_le (by omega) bounded, Nat.add_sub_cancel]
  unfold arraySet
  rw [Code.bind_ok found]
  rfl

end OpenPages

/-- The resize of a full array makes room in its pages. -/
theorem WritableArray.resize_full (array : WritableArray contract own db root size elems)
    (positive : 0 < size)
    (small : size ≤ 255) {capacity : Nat} (current : arrayCapacity root db = .ok capacity db)
    (full : capacity < elems.length + 1) (needs : blocksFor size (elems.length + 1) ≤ 521728)
    (room : 2 * blocksFor size (elems.length + 1) + 2 ≤ own.room) :
    ∃ later after blocks indexes, arrayResize api root (elems.length + 1) db = .ok () after ∧
      OpenPages contract later after root size elems.length blocks indexes ∧
      elems.length < blocks.length * itemsPerBlock size ∧ 2 ≤ later.room := by
  have less := smallCapacity_le size
  have enough := le_newCapacity positive small (elems.length + 1)
  have whole : elems.take (newCapacity size (elems.length + 1)) = elems :=
    List.take_of_length_le (by omega)
  cases array with
  | small array =>
      rw [array.capacity positive] at current
      cases current
      have large : ¬elems.length + 1 ≤ smallCapacity size := by omega
      have value : newCapacity size (elems.length + 1) = blocksFor size (elems.length + 1) *
          itemsPerBlock size :=
        if_neg large
      obtain ⟨later, after, blocks, indexes, ran, paged, count, conserved⟩ :=
        array.resize_paged positive small large needs (by omega)
      rw [whole] at paged
      have spans := paged.held.table.spans
      simp only [indexCount] at spans
      rw [value, ← count] at enough
      exact ⟨later, after, blocks, indexes, ran,
        ⟨paged.held, paged.nonempty, paged.header, paged.fits⟩, enough, by omega⟩
  | paged blocks indexes pages elements =>
      have held := pages.held
      have itemSize : ptItemSize db root = size := pages.header.itemSize
      rw [held.capacity pages.nonempty itemSize positive] at current
      cases current
      have some : 0 < blocks.length := List.length_pos_of_ne_nil pages.nonempty
      have one : 1 * itemsPerBlock size ≤ blocks.length * itemsPerBlock size :=
        Nat.mul_le_mul_right _ some
      have large : ¬elems.length + 1 ≤ smallCapacity size := by omega
      have value : newCapacity size (elems.length + 1) = blocksFor size (elems.length + 1) *
          itemsPerBlock size :=
        if_neg large
      rw [value] at enough
      have more : blocks.length < blocksFor size (elems.length + 1) := by
        by_contra fewer
        have product := Nat.mul_le_mul_right (itemsPerBlock size) (Nat.le_of_not_lt fewer)
        omega
      obtain ⟨moved, ran, later, blocks', indexes', grown⟩ :=
        pageResize_grow held (Nat.le_of_lt more) needs (by omega)
      have count := grown.length
      have roomAfter := grown.room
      have header :=
        pages.header.of_same fun offset low high => grown.change.header offset (by omega) high
      have repaged :
          arrayRepage api root (smallCapacity size) (blocksFor size (elems.length + 1)) db =
          .ok () moved := by
        unfold arrayRepage
        rw [load_bind, held.table.count, if_neg (by omega), if_neg (by omega), ran]
      have cut :
          truncateLength root (newCapacity size (elems.length + 1)) moved = .ok () moved := by
        rw [truncateLength_run header, if_neg (by rw [value]; omega)]
      rw [← count] at enough
      refine ⟨later, moved, blocks', indexes', ?_, ⟨grown.held, ?_, header, by omega⟩,
        enough, by omega⟩
      · rw [arrayResize_large (held.capacity pages.nonempty itemSize positive) (by omega)
          itemSize positive small
          large needs, Code.bind_ok repaged]
        exact cut
      · rintro rfl
        simp at count
        omega

theorem WritableArray.exists_capacity (array : WritableArray contract own db root size elems)
    (positive : 0 < size) :
    ∃ capacity, arrayCapacity root db = .ok capacity db := by
  cases array with
  | small array => exact ⟨_, array.capacity positive⟩
  | paged blocks indexes pages elements =>
      exact ⟨_, pages.held.capacity pages.nonempty pages.header.itemSize positive⟩

theorem WritableArray.header (array : WritableArray contract own db root size elems) :
    ArrayHeader db root size elems.length := by
  cases array with
  | small array => exact array.header
  | paged blocks indexes pages elements => exact pages.header

theorem WritableArray.length_lt (array : WritableArray contract own db root size elems) :
    elems.length + 1 < 4294967296 := by
  cases array with
  | small array =>
      have fits := array.fits
      have capacity : smallCapacity size ≤ 4084 := Nat.div_le_self _ _
      omega
  | paged blocks indexes pages elements => exact pages.length_lt

end EverDb
