import EverDb.Array.Resize
import EverDb.Page.Refusal

/-!
# The capacity that `array_resize` reaches

The number of data blocks is rounded up in 32-bit arithmetic. Near the top of the
range the sum wraps: the array is emptied and success reported.
-/

namespace EverDb

open Foundation

variable {answer : List BlockEvent → Option Nat} {fresh : FreshAnswers answer} {own : Ownership}
  {db : Db (List BlockEvent)} {root size capacity : Nat} {elems : List (List UInt8)}

section Granted

/-- A granted request is granted by an allocator that refuses nothing. -/
theorem allocate_steady :
    Code.SucceedsAs (recorder answer).allocate (recorder (steady answer)).allocate := by
  intro state value after ran
  cases given : answer state.ctl with
  | none =>
      rw [recorder_refused given] at ran
      cases ran
  | some block =>
      rw [recorder_granted given] at ran
      rw [recorder_granted (steady_of_some given)]
      exact ran

theorem growDataBlocks_steady (root : Nat) :
    Code.SucceedsAs (growDataBlocks (recorder answer) root)
      (growDataBlocks (recorder (steady answer)) root) :=
  allocate_steady.bind fun _ => .refl _

theorem growIndexBlocks_steady (root : Nat) :
    Code.SucceedsAs (growIndexBlocks (recorder answer) root)
      (growIndexBlocks (recorder (steady answer)) root) := by
  refine (Code.SucceedsAs.refl _).bind fun nblocks =>
    (Code.SucceedsAs.refl _).bind fun indexBlock =>
    Code.SucceedsAs.bind ?_ fun opened => (Code.SucceedsAs.refl _).bind fun _ =>
      allocate_steady.bind fun _ => .refl _
  exact .ite allocate_steady (.refl _)

/-- What `page_resize` does when every request it makes is granted. -/
theorem pageResize_steady (root target : Nat) :
    Code.SucceedsAs (pageResize (recorder answer) root target)
      (pageResize (recorder (steady answer)) root target) :=
  (Code.SucceedsAs.refl _).bind fun root =>
  (Code.SucceedsAs.whileLoop (growDataBlocks_steady root) _).bind
    fun _ => (Code.SucceedsAs.whileLoop (growIndexBlocks_steady root) _).bind fun _ => .refl _

/-- What `array_resize` does when every request it makes is granted. -/
theorem arrayResize_steady (root capacity : Nat) :
    Code.SucceedsAs (arrayResize (recorder answer) root capacity)
      (arrayResize (recorder (steady answer)) root capacity) := by
  have makeSmall : ∀ count, Code.SucceedsAs (arrayMakeSmall (recorder answer) root count)
      (arrayMakeSmall (recorder (steady answer)) root count) := fun count =>
    (Code.SucceedsAs.refl _).bind fun _ => (Code.SucceedsAs.refl _).bind fun _ =>
      (pageResize_steady root 0).bind fun _ => .refl _
  have makePaged :
      ∀ count nblocks, Code.SucceedsAs (arrayMakePaged (recorder answer) root count nblocks)
      (arrayMakePaged (recorder (steady answer)) root count nblocks) := fun count nblocks =>
    (Code.SucceedsAs.refl _).bind fun _ => (Code.SucceedsAs.refl _).bind fun _ =>
      (pageResize_steady root nblocks).bind fun _ => .refl _
  have repage : ∀ count nblocks, Code.SucceedsAs (arrayRepage (recorder answer) root count nblocks)
      (arrayRepage (recorder (steady answer)) root count nblocks) := fun count nblocks =>
    (Code.SucceedsAs.refl _).bind fun _ =>
    .ite (.refl _) (.ite (makePaged _ _) (pageResize_steady _ _))
  refine (Code.SucceedsAs.refl _).bind fun current => .ite (.refl _) ?_
  refine (Code.SucceedsAs.refl _).bind fun _ => (Code.SucceedsAs.refl _).bind fun _ =>
    (Code.SucceedsAs.refl _).bind fun _ => .ite ?_ ?_
  · exact .ite ((makeSmall _).bind fun _ => .refl _) (.refl _)
  · exact (Code.SucceedsAs.refl _).bind fun _ => (repage _ _).bind fun _ => .refl _

end Granted

/-- What a resize that returns success must leave. -/
structure Honoured (answer : List BlockEvent → Option Nat) (root capacity : Nat)
    (elems : List (List UInt8)) (after : Db (List BlockEvent)) : Prop where
  reached : ∃ reached, arrayCapacity root after = .ok reached after ∧ capacity ≤ reached ∧
    arrayLength after root = min elems.length reached
  elements : ∀ i element, i < arrayLength after root → elems[i]? = some element →
    arrayGet (recorder answer) root i after = .ok element after

/-- A resize honours the capacity whenever it returns success. -/
def Honours (answer : List BlockEvent → Option Nat) (root capacity : Nat)
    (elems : List (List UInt8)) (outcome : Outcome (Db (List BlockEvent)) Unit) : Prop :=
  ∀ after, outcome = .ok () after → Honoured answer root capacity elems after

/-- A resize to as many data blocks as a root can hold honours the capacity. -/
theorem arrayResize_honours (array : ArrayRep (steadyContract fresh) 521728 own db root size elems)
    (positive : 0 < size) (small : size ≤ 255) (needs : blocksFor size capacity ≤ 521728)
    {after : Db (List BlockEvent)}
    (ran : arrayResize (recorder answer) root capacity db = .ok () after) :
    Honoured answer root capacity elems after := by
  obtain ⟨later, final, granted, resized, reached⟩ :=
    arrayResize_spec array positive small (Nat.le_refl _) needs
  rw [arrayResize_steady root capacity db () after ran] at granted
  cases granted
  have length : arrayLength after root = min elems.length (newCapacity size capacity) := by
    rw [arrayLength, resized.header.length, List.length_take, Nat.min_comm]
  refine ⟨⟨_, reached, le_newCapacity positive small capacity, length⟩, ?_⟩
  intro i element below found
  have taken : (elems.take (newCapacity size capacity))[i]? = some element := by
    rw [List.getElem?_take_of_lt (by omega), found]
  have read := arrayGet_spec resized positive small i
  rw [taken] at read
  exact read

/-- A block count that wraps in 32 bits is zero. -/
theorem wrapped_count (positive : 0 < size) (small : size ≤ 255) (bounded : capacity < 4294967296)
    (wraps : 4294967296 ≤ capacity + itemsPerBlock size - 1) :
    u32 (capacity + itemsPerBlock size - 1) / itemsPerBlock size = 0 := by
  have perBlock := itemsPerBlock_bounds positive small
  apply Nat.div_eq_of_lt
  unfold u32
  omega

/-- Bringing a larger array to no data blocks at all leaves the root alone. -/
theorem arrayRepage_none (answer : List BlockEvent → Option Nat) {fresh : FreshAnswers answer}
    (array : ArrayRep (steadyContract fresh) 521728 own db root size elems) :
    ∃ after, arrayRepage (recorder answer) root (smallCapacity size) 0 db = .ok () after ∧
      ptNblocks after root = 0 ∧ ArrayHeader after root size elems.length := by
  cases array with
  | small array room =>
      refine ⟨db, ?_, array.count, array.header⟩
      unfold arrayRepage
      rw [load_bind, array.count, if_pos rfl]
      rfl
  | paged blocks indexes array within room =>
      have held := array.held
      have nonempty : blocks.length ≠ 0 :=
        fun none => array.nonempty (List.eq_nil_of_length_eq_zero none)
      have spans := held.table.spans
      rw [indexCount] at spans
      obtain ⟨later, after, blocks', indexes', ran, resized⟩ :=
        pageResize_of_writable 0 held array.writable (Nat.zero_le _) (by omega)
      have shrunk : pageResize (recorder answer) root 0 db = .ok () after :=
        (pageResize_shrink_answered (Nat.zero_le _)).trans ran
      refine ⟨after, ?_, ?_, array.header.of_same fun offset low high =>
        resized.header offset (by omega) high⟩
      · unfold arrayRepage
        rw [load_bind, held.table.count, if_neg nonempty, if_neg nonempty, shrunk]
      · rw [ptNblocks, resized.held.table.count, resized.length]

/-- A resize whose block count wraps empties the array and returns success. -/
theorem arrayResize_wraps (array : ArrayRep (steadyContract fresh) 521728 own db root size elems)
    (positive : 0 < size) (small : size ≤ 255) (bounded : capacity < 4294967296)
    (wraps : 4294967296 ≤ capacity + itemsPerBlock size - 1) :
    ∃ after, arrayResize (recorder answer) root capacity db = .ok () after ∧
      arrayCapacity root after = .ok (smallCapacity size) after ∧ arrayLength after root = 0 := by
  have perBlock := itemsPerBlock_bounds positive small
  have few : smallCapacity size ≤ 4084 := Nat.div_le_self _ _
  have itemSize : ptItemSize db root = size := array.header.itemSize
  obtain ⟨before, current, different⟩ : ∃ before, arrayCapacity root db = .ok before db ∧
      capacity ≠ before := by
    cases array with
    | small array room => exact ⟨_, array.capacity positive, by omega⟩
    | paged blocks indexes array within room =>
        have most : blocks.length * itemsPerBlock size ≤ 521728 * 4096 :=
          Nat.mul_le_mul within perBlock.2
        exact ⟨_, array.capacity positive, by omega⟩
  obtain ⟨middle, repaged, none, header⟩ := arrayRepage_none answer array
  obtain ⟨after, cut, noBlocks, sameSize, noElements⟩ :
      ∃ after, truncateLength root 0 middle = .ok () after ∧
      (after.data root).word 1023 = 0 ∧ ptItemSize after root = size ∧
      arrayLength after root = 0 := by
    refine ⟨_, truncateLength_run header, ?_⟩
    by_cases longer : elems.length > 0
    · rw [if_pos longer, ptItemSize, arrayLength, Db.setWord_data_self]
      refine ⟨?_, ?_, Image.word_setWord_self (by decide)⟩
      · rw [Image.word_setWord_of_ne (by decide)]
        exact none
      · rw [Image.setWord_byte_of_ne (by decide)]
        exact header.itemSize
    · rw [if_neg longer]
      exact ⟨none, header.itemSize, header.length.trans (by omega)⟩
  refine ⟨after, ?_, ?_, noElements⟩
  · unfold arrayResize
    rw [Code.bind_ok current, if_neg different, Code.gets_bind, itemSize,
      Code.bind_ok (divide_run positive db),
      load_bind, if_neg (show ¬capacity ≤ smallCapacity size by omega),
      Code.bind_ok (divide_run positive db)]
    change (arrayRepage (recorder answer) root (smallCapacity size)
        (u32 (capacity + itemsPerBlock size - 1) / itemsPerBlock size) >>= fun _ =>
      truncateLength root (u32 (u32 (capacity + itemsPerBlock size - 1) / itemsPerBlock size *
        itemsPerBlock size))) db = _
    rw [wrapped_count positive small bounded wraps, Code.bind_ok repaged, Nat.zero_mul]
    exact cut
  · unfold arrayCapacity
    rw [load_bind, noBlocks, Code.gets_bind, sameSize, if_pos rfl, divide_run positive]

/-- A resize whose block count wraps does not honour the capacity. -/
theorem arrayResize_dishonours
    (array : ArrayRep (steadyContract fresh) 521728 own db root size elems)
    (positive : 0 < size) (small : size ≤ 255) (bounded : capacity < 4294967296)
    (wraps : 4294967296 ≤ capacity + itemsPerBlock size - 1) :
    ¬Honours answer root capacity elems (arrayResize (recorder answer) root capacity db) := by
  have perBlock := itemsPerBlock_bounds positive small
  have few : smallCapacity size ≤ 4084 := Nat.div_le_self _ _
  obtain ⟨after, ran, current, _⟩ := arrayResize_wraps array positive small bounded wraps
  intro honours
  obtain ⟨reached, again, enough, _⟩ := (honours after ran).reached
  rw [current] at again
  cases again
  omega

/-- An array of one 4-byte element in block 4, over an allocator that refuses
nothing. -/
def soleElement : Db (List BlockEvent) :=
  ⟨fun _ => ((Image.zero.setWord 0 7).setWord lengthWord 1).setByte itemSizeByte 4, [.taken 4]⟩

theorem soleElement_array {answer : List BlockEvent → Option Nat} (fresh : FreshAnswers answer) :
    ArrayRep (steadyContract fresh) 521728 (holding soleElement.ctl) soleElement 4
      4 [[7, 0, 0, 0]] := by
  refine .small ⟨holding_valid (by decide) (by decide), show 4 ∈ [4] by decide, by decide,
    ⟨by decide, by decide⟩, by decide, ?_, ?_⟩ (by decide)
  · intro i element found
    cases i with
    | zero =>
        cases found
        decide
    | succ i => simp at found
  · intro offset low high
    have past : 4084 ≤ offset := low
    omega

/-- An array of three 4-byte elements in block 4. -/
def threeElements : Db (List BlockEvent) :=
  ⟨fun _ => ((((Image.zero.setWord 0 7).setWord 1 8).setWord 2 9).setWord lengthWord 3).setByte
    itemSizeByte 4, [.taken 4]⟩

theorem threeElements_array {answer : List BlockEvent → Option Nat} (fresh : FreshAnswers answer) :
    ArrayRep (steadyContract fresh) 521728 (holding threeElements.ctl) threeElements 4 4
      [[7, 0, 0, 0], [8, 0, 0, 0], [9, 0, 0, 0]] := by
  refine .small ⟨holding_valid (by decide) (by decide), show 4 ∈ [4] by decide, by decide,
    ⟨by decide, by decide⟩, by decide, ?_, ?_⟩ (by decide)
  · intro i element found
    rcases i with _ | _ | _ | i
    · cases found
      decide
    · cases found
      decide
    · cases found
      decide
    · simp at found
  · intro offset low high
    have past : 4084 ≤ offset := low
    omega

/-- Resizing to the largest capacity drops the element and returns success. -/
theorem arrayResize_drops_elements :
    ∃ after, arrayResize (recorder leastUnused) 4 4294967295 soleElement = .ok () after ∧
      arrayLength soleElement 4 = 1 ∧ arrayLength after 4 = 0 ∧
      ¬Honours leastUnused 4 4294967295 [[7, 0, 0, 0]]
        (arrayResize (recorder leastUnused) 4 4294967295 soleElement) := by
  have array := soleElement_array leastUnused_fresh
  obtain ⟨after, ran, _, none⟩ := arrayResize_wraps array (by decide) (by decide)
    (show 4294967295 < 4294967296 by decide) (by decide)
  exact ⟨after, ran, by decide, none,
    arrayResize_dishonours array (by decide) (by decide) (by decide) (by decide)⟩

end EverDb
