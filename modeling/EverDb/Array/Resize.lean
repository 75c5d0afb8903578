import EverDb.Array.Access

/-!
# Resizing an array

`array_resize` moves an array between its two layouts and between numbers of data
blocks. It keeps the elements that fit the new capacity.
-/

namespace EverDb

open Foundation

variable {ρ : Type} {api : BlockApi (Db ρ)} {contract : BlockContract api} {own : Ownership}
  {db : Db ρ} {root size limit target : Nat} {blocks indexes : List Nat}
  {elems : List (List UInt8)}

/-- What `page_resize` does to a table whose blocks are all writable. -/
structure ResizedTable (contract : BlockContract api) (own later : Ownership) (db after : Db ρ)
    (root limit : Nat) (blocks indexes : List Nat) (target : Nat)
    (blocks' indexes' : List Nat) : Prop where
  held : HeldTable contract later after root limit blocks' indexes'
  writable : ∀ block ∈ blocks' ++ indexes', later.writable block
  length : blocks'.length = target
  first : ∀ i, i < target → i < blocks.length → blocks'[i]? = blocks[i]?
  same : ∀ block ∈ blocks, block ∈ blocks' → after.data block = db.data block
  header : ∀ offset, 4 * (512 + limit) ≤ offset → offset < 4092 →
    after.data root offset = db.data root offset
  room : later.room + blocks'.length + indexes'.length = own.room + blocks.length + indexes.length

theorem pageResize_of_writable (target : Nat)
    (held : HeldTable contract own db root limit blocks indexes)
    (writable : ∀ block ∈ blocks ++ indexes, own.writable block)
    (fits : target ≤ 512 + 1024 * limit)
    (room : 2 * (target - blocks.length) + (blocks.length - target) ≤ own.room) :
    ∃ later after blocks' indexes', pageResize api root target db = .ok () after ∧
      ResizedTable contract own later db after root limit blocks indexes target
        blocks' indexes' := by
  have distinct := List.nodup_append.mp (List.nodup_cons.mp held.distinct).2
  -- a data block that stays is neither the root nor an index block
  have apart : ∀ block ∈ blocks, own.kept block ∧ block ≠ root ∧ block ∉ indexes := by
    intro block member
    refine ⟨held.kept (by simp [member]), ?_, fun inIndexes =>
      distinct.2.2 block member block inIndexes rfl⟩
    rintro rfl
    exact held.root_not_mem (by simp [member])
  by_cases more : blocks.length ≤ target
  · obtain ⟨after, ran, later, blocks', indexes', grown⟩ :=
      pageResize_grow held more fits (by omega)
    obtain ⟨allAfter, roomAfter⟩ := grown.change.conserved writable
    obtain ⟨added, rfl⟩ := grown.extends_
    refine ⟨later, after, _, indexes', ran, grown.held, allAfter, grown.length, ?_, ?_,
      grown.change.header, roomAfter⟩
    · intro i _ inside
      rw [List.getElem?_append_left inside]
    · intro block member stays
      obtain ⟨kept, notRoot, notIndex⟩ := apart block member
      exact grown.change.same block kept notRoot notIndex fun _ => stays
  · obtain ⟨after, ran, later, indexes', shrunk⟩ :=
      pageResize_shrink held (show target ≤ blocks.length by omega) (by omega)
    obtain ⟨allAfter, roomAfter⟩ := shrunk.change.conserved writable
    refine ⟨later, after, _, indexes', ran, shrunk.held, allAfter, ?_, ?_, ?_,
      shrunk.change.header, roomAfter⟩
    · rw [List.length_take]
      omega
    · intro i inside _
      rw [List.getElem?_take_of_lt inside]
    · intro block member stays
      obtain ⟨kept, notRoot, notIndex⟩ := apart block member
      exact shrunk.change.same block kept notRoot notIndex fun _ => stays

/-- The data blocks that a capacity needs. -/
def blocksFor (size capacity : Nat) : Nat :=
  if capacity ≤ smallCapacity size then 0
  else (capacity + itemsPerBlock size - 1) / itemsPerBlock size

/-- The capacity after `array_resize`. -/
def newCapacity (size capacity : Nat) : Nat :=
  if capacity ≤ smallCapacity size then smallCapacity size
  else blocksFor size capacity * itemsPerBlock size

/-- The new capacity is large enough. -/
theorem le_newCapacity (positive : 0 < size) (small : size ≤ 255) (capacity : Nat) :
    capacity ≤ newCapacity size capacity := by
  unfold newCapacity blocksFor
  split
  · assumption
  · have perBlock := itemsPerBlock_bounds positive small
    have split := Nat.div_add_mod (capacity + itemsPerBlock size - 1) (itemsPerBlock size)
    have below :=
      Nat.mod_lt (capacity + itemsPerBlock size - 1) (show 0 < itemsPerBlock size by omega)
    rw [Nat.mul_comm]
    omega

/-- A capacity that is a whole number of data blocks is reached exactly. -/
theorem newCapacity_of_blocks (positive : 0 < size) (small : size ≤ 255) {count : Nat}
    (nonempty : 0 < count) :
    newCapacity size (count * itemsPerBlock size) = count * itemsPerBlock size := by
  have perBlock := itemsPerBlock_bounds positive small
  have less := smallCapacity_le size
  have one : 1 * itemsPerBlock size ≤ count * itemsPerBlock size := Nat.mul_le_mul_right _ nonempty
  by_cases little : count * itemsPerBlock size ≤ smallCapacity size
  · rw [newCapacity, if_pos little]
    omega
  · have next :
        (count + 1) * itemsPerBlock size = count * itemsPerBlock size + itemsPerBlock size :=
      Nat.succ_mul _ _
    have exactly :
        (count * itemsPerBlock size + itemsPerBlock size - 1) / itemsPerBlock size = count :=
      Nat.div_eq_of_lt_le (by omega) (by omega)
    rw [newCapacity, if_neg little, blocksFor, if_neg little, exactly]

/-- The header lies behind the words of the page table. -/
theorem ArrayHeader.of_same {after : Db ρ} {length : Nat} (header : ArrayHeader db root size length)
    (same : ∀ offset, 4084 ≤ offset → offset < 4092 →
      after.data root offset = db.data root offset) :
    ArrayHeader after root size length := by
  refine ⟨by rw [same 4084 (by omega) (by omega), header.itemSize], ?_⟩
  rw [← header.length]
  exact Image.word_congr fun step small => same _ (by omega) (by omega)

/-- The cut of the length that ends `array_resize`. -/
theorem truncateLength_run {capacity length : Nat} (header : ArrayHeader db root size length) :
    truncateLength root capacity db =
      .ok () (if length > capacity then db.setWord root 1022 capacity else db) := by
  unfold truncateLength
  rw [load_bind, header.length]
  split
  · rfl
  · rfl

/-- Cutting the length down to what the root holds. -/
theorem truncate_small (valid : contract.Valid own db) (writable : own.writable root)
    (count : (db.data root).word 1023 = 0) (header : ArrayHeader db root size elems.length)
    (positive : 0 < size)
    (elements : ∀ i element, i < smallCapacity size → elems[i]? = some element →
      (db.data root).slice (i * size) size = element)
    (trailing : ∀ offset, smallCapacity size * size ≤ offset → offset < 4084 →
      db.data root offset = 0) :
    ∃ after, truncateLength root (smallCapacity size) db = .ok () after ∧
      SmallArray contract own after root size (elems.take (smallCapacity size)) := by
  refine ⟨_, truncateLength_run header, ?_⟩
  by_cases longer : elems.length > smallCapacity size
  · have length : (elems.take (smallCapacity size)).length = smallCapacity size := by
      rw [List.length_take]
      omega
    have cut := SmallArray.of_length valid writable count header.itemSize positive
      (Nat.le_of_eq length) (fun i element found => by
        obtain ⟨inside, _⟩ := List.getElem?_eq_some_iff.mp found
        exact elements i element (by omega) (getElem?_of_take found)) trailing
    rw [length] at cut
    rwa [if_pos longer]
  · rw [if_neg longer, List.take_of_length_le (by omega)]
    refine ⟨valid, writable, count, header, by omega, fun i element found => ?_, trailing⟩
    obtain ⟨inside, _⟩ := List.getElem?_eq_some_iff.mp found
    exact elements i element (by omega) found

/-- Cutting the length down to what the data blocks hold. -/
theorem truncate_paged (held : HeldTable contract own db root 509 blocks indexes)
    (nonempty : blocks ≠ []) (writable : ∀ block ∈ blocks ++ indexes, own.writable block)
    (header : ArrayHeader db root size elems.length)
    (elements : ∀ i element block, elems[i]? = some element →
      blocks[i / itemsPerBlock size]? = some block →
      (db.data block).slice (i % itemsPerBlock size * size) size = element) :
    ∃ after, truncateLength root (blocks.length * itemsPerBlock size) db = .ok () after ∧
      PagedArray contract own after root size blocks indexes
        (elems.take (blocks.length * itemsPerBlock size)) := by
  refine ⟨_, truncateLength_run header, ?_⟩
  by_cases longer : elems.length > blocks.length * itemsPerBlock size
  · have length : (elems.take (blocks.length * itemsPerBlock size)).length =
        blocks.length * itemsPerBlock size := by
      rw [List.length_take]
      omega
    have cut := PagedArray.of_length held nonempty writable header.itemSize (Nat.le_of_eq length)
      fun i element block found => elements i element block (getElem?_of_take found)
    rw [length] at cut
    rwa [if_pos longer]
  · rw [if_neg longer, List.take_of_length_le (by omega)]
    exact ⟨held, nonempty, writable, header, by omega, elements⟩

/-- Back into the root. -/
theorem arrayMakeSmall_spec (array : PagedArray contract own db root size blocks indexes elems)
    (positive : 0 < size) (small : size ≤ 255) (room : blocks.length ≤ own.room) :
    ∃ later after, arrayMakeSmall api root (smallCapacity size) db = .ok () after ∧
      contract.Valid later after ∧ later.writable root ∧ (after.data root).word 1023 = 0 ∧
      ArrayHeader after root size elems.length ∧
      (∀ i element, i < smallCapacity size → elems[i]? = some element →
        (after.data root).slice (i * size) size = element) ∧
      (∀ offset, smallCapacity size * size ≤ offset → offset < 4084 → after.data root offset = 0) ∧
      later.room = own.room + blocks.length + indexes.length := by
  obtain ⟨first, firstFound⟩ : ∃ first, blocks[0]? = some first := by
    cases blocks with
    | nil => exact absurd rfl array.nonempty
    | cons first rest => exact ⟨first, rfl⟩
  obtain ⟨later, emptied, blocks', indexes', ran, resized⟩ :=
    pageResize_of_writable 0 array.held array.writable (by omega) (by omega)
  have noBlocks : blocks' = [] := List.eq_nil_of_length_eq_zero resized.length
  subst noBlocks
  have table := resized.held.table
  have noIndexes : indexes' = [] := List.eq_nil_of_length_eq_zero table.spans
  subst noIndexes
  have bytes := small_bytes positive
  have header := array.header.of_same fun offset low high => resized.header offset (by omega) high
  have live := (contract.wf resized.held.valid).writable_live _ resized.held.writable
  have itemSize : ptItemSize emptied root = size := header.itemSize
  refine ⟨later, emptied.write root ((emptied.data root).blit 0 (db.data first) 0
    (smallCapacity size * size)), ?_, contract.write resized.held.valid live _,
    resized.held.writable,
    ?_, ?_, ?_, ?_, resized.room⟩
  · unfold arrayMakeSmall
    rw [Code.bind_ok (pageWriteHostIndex_of_writable array.held array.writable firstFound),
      Code.gets_bind, Code.bind_ok ran, Code.update_run, itemSize]
  · rw [Db.write_data_self, Image.word_blit_outside (by omega), table.count, List.length_nil]
  · refine header.of_same fun offset low high => ?_
    rw [Db.write_data_self, Image.blit_outside (by omega)]
  · intro i element inside found
    have perBlock := smallCapacity_le size
    have read := array.elements i element first found (by
      rw [Nat.div_eq_of_lt (by omega), firstFound])
    rw [Nat.mod_eq_of_lt (by omega)] at read
    have bound := small_element_bound inside (Nat.le_refl _)
    rw [Db.write_data_self, Image.slice_blit_start bound, read]
  · intro offset low high
    rw [Db.write_data_self, Image.blit_outside (by omega)]
    apply Image.byte_of_word_eq_zero
    have clear := table.clear (offset / 4 - 512) (by simp) (by omega)
    rw [Nat.add_sub_of_le (by omega)] at clear
    exact clear

/-- The root once the elements of a small array are moved out of the way. -/
def clearElements (root size : Nat) (db : Db ρ) : Db ρ :=
  db.write root ((db.data root).blit 0 Image.zero 0 (smallCapacity size * size))

/-- Without its elements, the root of a small array is an empty page table. -/
theorem SmallArray.clear (array : SmallArray contract own db root size elems)
    (positive : 0 < size) :
    HeldTable contract own (clearElements root size db) root 509 [] [] ∧
      ArrayHeader (clearElements root size db) root size elems.length ∧
      ∀ offset, offset < 4084 → (clearElements root size db).data root offset = 0 := by
  have bytes := small_bytes positive
  have rootLive := (contract.wf array.valid).writable_live _ array.writable
  have clearedRoot : (clearElements root size db).data root =
      (db.data root).blit 0 Image.zero 0 (smallCapacity size * size) := Db.write_data_self _ _ _
  have zeroed : ∀ offset, offset < 4084 → (clearElements root size db).data root offset = 0 := by
    intro offset below
    rw [clearedRoot]
    by_cases inside : offset < smallCapacity size * size
    · rw [Image.blit_inside (by omega) (by omega)]
      rfl
    · rw [Image.blit_outside (by omega)]
      exact array.trailing offset (by omega) below
  refine ⟨?_, ?_, zeroed⟩
  · refine ⟨contract.write array.valid rootLive _,
      ⟨?_, by omega, by simp, by decide, by simp, by simp,
      by simp, ?_⟩, array.writable, by simp, by simp⟩
    · rw [clearedRoot, Image.word_blit_outside (by omega), array.count, List.length_nil]
    · intro j _ below
      exact Image.word_eq_zero fun step small => zeroed _ (by omega)
  · refine array.header.of_same fun offset low high => ?_
    rw [clearedRoot, Image.blit_outside (by omega)]

/-- Out of the root into data blocks. -/
theorem arrayMakePaged_spec (array : SmallArray contract own db root size elems)
    (positive : 0 < size)
    (larger : 0 < target) (fits : target ≤ 521728) (room : 2 * target ≤ own.room) :
    ∃ later after blocks indexes,
      arrayMakePaged api root (smallCapacity size) target db = .ok () after ∧
      HeldTable contract later after root 509 blocks indexes ∧ blocks.length = target ∧
      (∀ block ∈ blocks ++ indexes, later.writable block) ∧
      ArrayHeader after root size elems.length ∧
      (∀ i element block, elems[i]? = some element → blocks[i / itemsPerBlock size]? = some block →
        (after.data block).slice (i % itemsPerBlock size * size) size = element) ∧
      later.room + blocks.length + indexes.length = own.room := by
  have bytes := small_bytes positive
  obtain ⟨empty, header, _⟩ := array.clear positive
  obtain ⟨later, grown, blocks, indexes, ran, resized⟩ :=
    pageResize_of_writable target empty (by simp) (by omega) (by simp only [List.length_nil]; omega)
  have length := resized.length
  obtain ⟨first, firstFound⟩ : ∃ first, blocks[0]? = some first :=
    ⟨_, List.getElem?_eq_getElem (by omega)⟩
  have firstMember := List.mem_of_getElem? firstFound
  have notRoot : root ≠ first := by
    rintro rfl
    exact resized.held.root_not_mem (by simp [firstMember])
  have grownHeader := header.of_same fun offset low high => resized.header offset (by omega) high
  have itemSize : ptItemSize grown root = size := grownHeader.itemSize
  refine ⟨later, grown.write first ((grown.data first).blit 0 (db.data root) 0
    (smallCapacity size * size)), blocks, indexes, ?_,
    resized.held.write_block firstMember _, length,
    resized.writable, ?_, ?_, ?_⟩
  · have start : ptItemSize db root = size := array.header.itemSize
    unfold arrayMakePaged
    rw [Code.gets_bind, Code.update_bind, start, ← clearElements, Code.bind_ok ran,
      Code.bind_ok (pageWriteHostIndex_of_writable resized.held resized.writable firstFound),
      Code.update_run, itemSize]
  · refine grownHeader.of_same fun offset _ _ => ?_
    rw [Db.write_data_of_ne notRoot]
  · intro i element block found there
    obtain ⟨inside, _⟩ := List.getElem?_eq_some_iff.mp found
    have few := array.fits
    have perBlock := smallCapacity_le size
    have bound := small_element_bound inside few
    rw [Nat.div_eq_of_lt (by omega), firstFound, Option.some.injEq] at there
    rw [← there, Db.write_data_self, Nat.mod_eq_of_lt (by omega), Image.slice_blit_start bound]
    exact array.elements i element found
  · have conserved := resized.room
    simp only [List.length_nil, Nat.add_zero] at conserved
    exact conserved

/-- The number of data blocks as `array_resize` computes it. -/
theorem blocksFor_eq {capacity : Nat} (positive : 0 < size) (small : size ≤ 255)
    (large : ¬capacity ≤ smallCapacity size) (needs : blocksFor size capacity ≤ 521728) :
    u32 (capacity + itemsPerBlock size - 1) / itemsPerBlock size = blocksFor size capacity ∧
      0 < blocksFor size capacity ∧
      u32 (blocksFor size capacity * itemsPerBlock size) = newCapacity size capacity := by
  have perBlock := itemsPerBlock_bounds positive small
  have value : blocksFor size capacity =
      (capacity + itemsPerBlock size - 1) / itemsPerBlock size := if_neg large
  have new : newCapacity size capacity = blocksFor size capacity * itemsPerBlock size :=
    if_neg large
  have product : blocksFor size capacity * itemsPerBlock size ≤ 521728 * 4096 :=
    Nat.mul_le_mul needs perBlock.2
  have split := Nat.div_add_mod (capacity + itemsPerBlock size - 1) (itemsPerBlock size)
  have below :=
    Nat.mod_lt (capacity + itemsPerBlock size - 1) (show 0 < itemsPerBlock size by omega)
  rw [← value, Nat.mul_comm] at split
  refine ⟨?_, ?_, ?_⟩
  · rw [u32_of_lt (by omega), value]
  · rw [value]
    exact Nat.div_pos (by omega) (by omega)
  · rw [new, u32_of_lt (by omega)]

/-- `array_resize` inside the root. -/
theorem SmallArray.resize_small (array : SmallArray contract own db root size elems)
    (positive : 0 < size) {capacity : Nat} (little : capacity ≤ smallCapacity size) :
    ∃ after, arrayResize api root capacity db = .ok () after ∧
      SmallArray contract own after root size (elems.take (smallCapacity size)) := by
  have current := array.capacity positive
  have itemSize : ptItemSize db root = size := array.header.itemSize
  by_cases same : capacity = smallCapacity size
  · refine ⟨db, ?_, by rwa [List.take_of_length_le array.fits]⟩
    unfold arrayResize
    rw [Code.bind_ok current, if_pos same]
    rfl
  · obtain ⟨after, cut, smallAfter⟩ := truncate_small array.valid array.writable array.count
      array.header positive (fun i element _ found => array.elements i element found) array.trailing
    refine ⟨after, ?_, smallAfter⟩
    unfold arrayResize
    rw [Code.bind_ok current, if_neg same, Code.gets_bind, itemSize,
      Code.bind_ok (divide_run positive db), load_bind, array.count, if_pos little]
    exact cut

/-- The branch of `array_resize` for capacities that do not fit the root. -/
theorem arrayResize_large {capacity before : Nat} (current : arrayCapacity root db = .ok before db)
    (different : capacity ≠ before) (itemSize : ptItemSize db root = size) (positive : 0 < size)
    (small : size ≤ 255) (large : ¬capacity ≤ smallCapacity size)
    (needs : blocksFor size capacity ≤ 521728) :
    arrayResize api root capacity db =
      (arrayRepage api root (smallCapacity size) (blocksFor size capacity) >>= fun _ =>
        truncateLength root (newCapacity size capacity)) db := by
  obtain ⟨count, _, total⟩ := blocksFor_eq positive small large needs
  have perBlock : 0 < itemsPerBlock size := by
    have := itemsPerBlock_bounds positive small
    omega
  unfold arrayResize
  rw [Code.bind_ok current, if_neg different, Code.gets_bind, itemSize,
    Code.bind_ok (divide_run positive db), load_bind, if_neg large,
    Code.bind_ok (divide_run positive db)]
  simp only [blockSize, count, total]

/-- `array_resize` from the root to data blocks. -/
theorem SmallArray.resize_paged (array : SmallArray contract own db root size elems)
    (positive : 0 < size) (small : size ≤ 255) {capacity : Nat}
    (large : ¬capacity ≤ smallCapacity size) (needs : blocksFor size capacity ≤ 521728)
    (room : 2 * blocksFor size capacity ≤ own.room) :
    ∃ later after blocks indexes, arrayResize api root capacity db = .ok () after ∧
      PagedArray contract later after root size blocks indexes
        (elems.take (newCapacity size capacity)) ∧
      blocks.length = blocksFor size capacity ∧
      later.room + blocks.length + indexes.length = own.room := by
  have itemSize : ptItemSize db root = size := array.header.itemSize
  obtain ⟨count, larger, total⟩ := blocksFor_eq positive small large needs
  have value : newCapacity size capacity = blocksFor size capacity * itemsPerBlock size :=
    if_neg large
  obtain ⟨later, grown, blocks, indexes, ran, held, length, writable, header,
      elements, conserved⟩ :=
    arrayMakePaged_spec array positive larger needs room
  have nonempty : blocks ≠ [] := by
    rintro rfl
    rw [List.length_nil] at length
    omega
  obtain ⟨after, cut, paged⟩ := truncate_paged held nonempty writable header elements
  rw [length, ← value] at cut paged
  refine ⟨later, after, blocks, indexes, ?_, paged, length, conserved⟩
  have repaged : arrayRepage api root (smallCapacity size) (blocksFor size capacity) db =
      .ok () grown := by
    unfold arrayRepage
    rw [load_bind, array.count, if_neg (by omega), if_pos rfl, ran]
  rw [arrayResize_large (array.capacity positive) (by omega) itemSize positive small large needs,
    Code.bind_ok repaged]
  exact cut

/-- `array_resize` from data blocks into the root. -/
theorem PagedArray.resize_small (array : PagedArray contract own db root size blocks indexes elems)
    (positive : 0 < size) (small : size ≤ 255) {capacity : Nat}
    (little : capacity ≤ smallCapacity size)
    (different : capacity ≠ blocks.length * itemsPerBlock size) (room : blocks.length ≤ own.room) :
    ∃ later after, arrayResize api root capacity db = .ok () after ∧
      SmallArray contract later after root size (elems.take (smallCapacity size)) ∧
      later.room = own.room + blocks.length + indexes.length := by
  have itemSize : ptItemSize db root = size := array.header.itemSize
  have nonempty : blocks.length ≠ 0 :=
    fun none => array.nonempty (List.eq_nil_of_length_eq_zero none)
  obtain ⟨later, moved, ran, valid, writable, count, header, elements, trailing, conserved⟩ :=
    arrayMakeSmall_spec array positive small room
  obtain ⟨after, cut, smallAfter⟩ :=
    truncate_small valid writable count header positive elements trailing
  refine ⟨later, after, ?_, smallAfter, conserved⟩
  unfold arrayResize
  rw [Code.bind_ok (array.capacity positive), if_neg different, Code.gets_bind, itemSize,
    Code.bind_ok (divide_run positive db), load_bind, array.held.table.count, if_pos little,
    if_pos nonempty, Code.bind_ok ran]
  exact cut

/-- `array_resize` between numbers of data blocks. -/
theorem PagedArray.resize_paged (array : PagedArray contract own db root size blocks indexes elems)
    (positive : 0 < size) (small : size ≤ 255) {capacity : Nat}
    (large : ¬capacity ≤ smallCapacity size)
    (different : capacity ≠ blocks.length * itemsPerBlock size)
    (needs : blocksFor size capacity ≤ 521728)
    (room : 2 * (blocksFor size capacity - blocks.length) +
      (blocks.length - blocksFor size capacity) ≤ own.room) :
    ∃ later after blocks' indexes', arrayResize api root capacity db = .ok () after ∧
      PagedArray contract later after root size blocks' indexes'
        (elems.take (newCapacity size capacity)) ∧
      blocks'.length = blocksFor size capacity ∧
      later.room + blocks'.length + indexes'.length =
        own.room + blocks.length + indexes.length := by
  have itemSize : ptItemSize db root = size := array.header.itemSize
  have held := array.held
  have nonempty : blocks.length ≠ 0 :=
    fun none => array.nonempty (List.eq_nil_of_length_eq_zero none)
  obtain ⟨count, larger, total⟩ := blocksFor_eq positive small large needs
  have value : newCapacity size capacity = blocksFor size capacity * itemsPerBlock size :=
    if_neg large
  have perBlock : 0 < itemsPerBlock size := by
    have := itemsPerBlock_bounds positive small
    omega
  have run : arrayResize api root capacity db = _ :=
    arrayResize_large (array.capacity positive) different itemSize positive small large needs
  by_cases same : blocks.length = blocksFor size capacity
  · have fits := array.fits
    obtain ⟨after, cut, paged⟩ := truncate_paged held array.nonempty array.writable array.header
      array.elements
    rw [same, ← value] at cut paged
    refine ⟨own, after, blocks, indexes, ?_, paged, same, rfl⟩
    have repaged : arrayRepage api root (smallCapacity size) (blocksFor size capacity) db =
        .ok () db := by
      unfold arrayRepage
      rw [load_bind, held.table.count, if_pos same]
      rfl
    rw [run, Code.bind_ok repaged]
    exact cut
  · obtain ⟨later, moved, blocks', indexes', ran, resized⟩ :=
      pageResize_of_writable (blocksFor size capacity) held array.writable (by omega) room
    have length := resized.length
    have nonemptyAfter : blocks' ≠ [] := by
      rintro rfl
      rw [List.length_nil] at length
      omega
    have header := array.header.of_same fun offset low high => resized.header offset (by omega) high
    have elements : ∀ i element block, elems[i]? = some element →
        blocks'[i / itemsPerBlock size]? = some block →
        (moved.data block).slice (i % itemsPerBlock size * size) size = element := by
      intro i element block found there
      obtain ⟨inside, _⟩ := List.getElem?_eq_some_iff.mp found
      obtain ⟨within, _⟩ := List.getElem?_eq_some_iff.mp there
      obtain ⟨before, here⟩ := array.exists_block inside
      obtain ⟨withinBefore, _⟩ := List.getElem?_eq_some_iff.mp here
      have kept := resized.first _ (by omega) withinBefore
      rw [there, here, Option.some.injEq] at kept
      subst kept
      rw [resized.same block (List.mem_of_getElem? here) (List.mem_of_getElem? there)]
      exact array.elements i element block found here
    obtain ⟨after, cut, paged⟩ := truncate_paged resized.held nonemptyAfter resized.writable header
      elements
    rw [length, ← value] at cut paged
    refine ⟨later, after, blocks', indexes', ?_, paged, length, resized.room⟩
    have repaged : arrayRepage api root (smallCapacity size) (blocksFor size capacity) db =
        .ok () moved := by
      unfold arrayRepage
      rw [load_bind, held.table.count, if_neg same, if_neg nonempty, ran]
    rw [run, Code.bind_ok repaged]
    exact cut

/-- `array_resize` succeeds, reaches the capacity and keeps the elements that fit. -/
theorem arrayResize_spec (array : ArrayRep contract limit own db root size elems)
    (positive : 0 < size) (small : size ≤ 255) (limited : limit ≤ 521728) {capacity : Nat}
    (needs : blocksFor size capacity ≤ limit) :
    ∃ later after, arrayResize api root capacity db = .ok () after ∧
      ArrayRep contract limit later after root size (elems.take (newCapacity size capacity)) ∧
      arrayCapacity root after = .ok (newCapacity size capacity) after := by
  have perBlock := itemsPerBlock_bounds positive small
  have less := smallCapacity_le size
  cases array with
  | small array room =>
      by_cases little : capacity ≤ smallCapacity size
      · have value : newCapacity size capacity = smallCapacity size := if_pos little
        obtain ⟨after, ran, smallAfter⟩ := array.resize_small positive little
        rw [value]
        exact ⟨own, after, ran, .small smallAfter room, smallAfter.capacity positive⟩
      · have value : newCapacity size capacity = blocksFor size capacity * itemsPerBlock size :=
          if_neg little
        obtain ⟨later, after, blocks, indexes, ran, paged, length, conserved⟩ :=
          array.resize_paged positive small little (by omega) (by omega)
        refine ⟨later, after, ran, .paged blocks indexes paged (by omega) (by omega), ?_⟩
        rw [value, ← length]
        exact paged.capacity positive
  | paged blocks indexes array within room =>
      have spans := array.held.table.spans
      have indexesFew : indexes.length ≤ blocks.length := by
        rw [spans, indexCount]
        omega
      by_cases same : capacity = blocks.length * itemsPerBlock size
      · have nonempty : 0 < blocks.length := List.length_pos_of_ne_nil array.nonempty
        have value := newCapacity_of_blocks positive small nonempty
        rw [← same] at value
        refine ⟨own, db, ?_, ?_, ?_⟩
        · unfold arrayResize
          rw [Code.bind_ok (array.capacity positive), if_pos same]
          rfl
        · rw [value, same, List.take_of_length_le array.fits]
          exact .paged blocks indexes array within room
        · rw [value, same]
          exact array.capacity positive
      · by_cases little : capacity ≤ smallCapacity size
        · have value : newCapacity size capacity = smallCapacity size := if_pos little
          obtain ⟨later, after, ran, smallAfter, conserved⟩ :=
            array.resize_small positive small little same (by omega)
          rw [value]
          exact ⟨later, after, ran, .small smallAfter (by omega), smallAfter.capacity positive⟩
        · have value : newCapacity size capacity = blocksFor size capacity * itemsPerBlock size :=
            if_neg little
          obtain ⟨later, after, blocks', indexes', ran, paged, length, conserved⟩ :=
            array.resize_paged positive small little same (by omega) (by omega)
          refine ⟨later, after, ran, .paged blocks' indexes' paged (by omega) (by omega), ?_⟩
          rw [value, ← length]
          exact paged.capacity positive

end EverDb
