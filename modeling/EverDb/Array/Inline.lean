import EverDb.Array.Model
import EverDb.Core

/-!
# Arrays inside their root

`InlineArray` reads one block as an array that keeps its elements inside its root.
While it has room, the array functions touch no other block and never call the
allocator. The freelist and the object list are such arrays of block numbers;
`Stack` is that case.
-/

namespace EverDb

open Foundation

variable {ρ : Type} {api : BlockApi (Db ρ)} {db : Db ρ} {root size : Nat} {image : Image}
  {elems : List (List UInt8)} {words : List Nat}

/-- A block that is the root of an array without data blocks. -/
structure InlineArray (image : Image) (size : Nat) (elems : List (List UInt8)) : Prop where
  count : image.word 1023 = 0
  itemSize : (image 4084).toNat = size
  length : image.word 1022 = elems.length
  fits : elems.length ≤ 4084 / size
  elements : ∀ i element, elems[i]? = some element → image.slice (i * size) size = element

/-- The root that `array_init` writes. -/
def emptyArray (itemSize : Nat) : Image :=
  Image.zero.setByte itemSizeByte (UInt8.ofNat itemSize)

/-- `array_init` writes an empty array. -/
theorem arrayInit_run (root itemSize : Nat) (db : Db ρ) :
    arrayInit root itemSize db = .ok () (db.write root (emptyArray itemSize)) := by
  simp only [arrayInit, pageInit, Code.update_bind, Code.update_run, Db.write_data_self,
    Db.write_write, emptyArray]

namespace InlineArray

/-- The last byte of an element lies before the header. -/
theorem element_bound (size : Nat) {i count : Nat} (inside : i < count)
    (fits : count ≤ 4084 / size) :
    i * size + size ≤ 4084 := by
  have step : (i + 1) * size ≤ 4084 / size * size := Nat.mul_le_mul_right _ (by omega)
  rw [Nat.succ_mul] at step
  exact Nat.le_trans step (Nat.div_mul_le_self _ _)

/-- An array in its root has no more elements than bytes. -/
theorem length_le (array : InlineArray image size elems) : elems.length ≤ 4084 :=
  Nat.le_trans array.fits (Nat.div_le_self _ _)

/-- A root with zero entries is an empty array. -/
theorem empty {itemSize : Nat} (small : itemSize < 256) :
    InlineArray (emptyArray itemSize) itemSize [] := by
  unfold emptyArray
  refine ⟨?_, ?_, ?_, ?_, ?_⟩
  · rw [Image.word_setByte_of_ne (by decide), Image.word_zero]
  · rw [Image.setByte_self, UInt8.toNat_ofNat']
    exact Nat.mod_eq_of_lt small
  · rw [Image.word_setByte_of_ne (by decide), Image.word_zero]
    rfl
  · exact Nat.zero_le _
  · intro i element found
    cases found

/-- `array_capacity` of an array in its root. -/
theorem capacity (array : InlineArray (db.data root) size elems) (positive : 0 < size) :
    arrayCapacity root db = .ok (4084 / size) db := by
  unfold arrayCapacity
  rw [load_bind, array.count, Code.gets_bind, ptItemSize, array.itemSize, if_pos rfl]
  simp [divide, Nat.ne_of_gt positive]

/-- `array_data` of an index in range. -/
theorem place (array : InlineArray (db.data root) size elems) {i : Nat}
    (inside : i < elems.length) :
    arrayData api root i db = .ok (some (root, i * size)) db := by
  unfold arrayData
  rw [load_bind, array.length, if_neg (by omega), load_bind, array.count, Code.gets_bind,
    ptItemSize, array.itemSize, if_pos rfl]
  rfl

/-- `array_get` reads an element. -/
theorem get (array : InlineArray (db.data root) size elems) (i : Nat) :
    arrayGet api root i db =
      match elems[i]? with
      | some element => .ok element db
      | none => .error errArrayIndexOutOfBounds db := by
  unfold arrayGet
  by_cases inside : i < elems.length
  · have found := List.getElem?_eq_getElem inside
    rw [Code.bind_ok (array.place inside), found]
    simp only [Code.gets_run, ptItemSize, array.itemSize, array.elements i _ found]
  · have none : arrayData api root i db = .ok none db := by
      unfold arrayData
      rw [load_bind, array.length, if_pos (by omega)]
      rfl
    rw [Code.bind_ok none, List.getElem?_eq_none (by omega)]
    rfl

/-- `array_push` into spare room appends. -/
theorem push (api : BlockApi (Db ρ)) (array : InlineArray (db.data root) size elems)
    (positive : 0 < size) (room : elems.length < 4084 / size) (buffer : Image) :
    ∃ image, arrayPush api root buffer db = .ok () (db.write root image) ∧
      InlineArray image size (elems ++ [buffer.slice 0 size]) := by
  have bounded := array.length_le
  have bound := element_bound size room (Nat.le_refl _)
  have next : u32 (elems.length + 1) = elems.length + 1 := u32_of_lt (by omega)
  refine ⟨((db.data root).setWord 1022 (elems.length + 1)).blit (elems.length * size) buffer 0 size,
    ?_, ?_, ?_, ?_, ?_, ?_⟩
  · have longer : InlineArray ((db.setWord root 1022 (elems.length + 1)).data root) size
        (elems ++ [(db.data root).slice (elems.length * size) size]) := by
      rw [Db.setWord_data_self]
      refine ⟨?_, ?_, ?_, ?_, ?_⟩
      · rw [Image.word_setWord_of_ne (by decide), array.count]
      · rw [Image.setWord_byte_of_ne (by decide), array.itemSize]
      · rw [Image.word_setWord_self (by omega), List.length_append, List.length_singleton]
      · rw [List.length_append, List.length_singleton]
        exact room
      · intro i element found
        have inside := (List.getElem?_eq_some_iff.mp found).1
        rw [List.length_append, List.length_singleton] at inside
        have low := element_bound size inside room
        rw [Image.slice_setWord_outside (by omega)]
        by_cases last : i = elems.length
        · subst last
          rw [List.getElem?_concat_length, Option.some.injEq] at found
          exact found
        · rw [List.getElem?_append_left (by omega)] at found
          exact array.elements i element found
    have data : arrayData api root elems.length (db.setWord root 1022 (elems.length + 1)) = _ :=
      longer.place (by simp)
    unfold arrayPush
    rw [load_bind, array.length, Code.bind_ok (array.capacity positive), next, if_neg (by omega)]
    change (load root lengthWord >>= fun length => store root lengthWord (u32 (length + 1)) >>=
      fun _ => load root lengthWord >>= fun length =>
        arraySet api root (sub32 length 1) buffer) db = _
    rw [load_bind, array.length, next, store_bind, load_bind, longer.length,
      List.length_append, List.length_singleton, sub32_of_le (by omega) (by omega),
      Nat.add_sub_cancel]
    unfold arraySet
    rw [Code.bind_ok data]
    change Outcome.ok () ((db.setWord root 1022 (elems.length + 1)).write root
      (((db.setWord root 1022 (elems.length + 1)).data root).blit (elems.length * size) buffer 0
        ((db.setWord root 1022 (elems.length + 1)).data root 4084).toNat)) = _
    rw [longer.itemSize, Db.setWord_data_self, Db.setWord, Db.write_write]
  · rw [Image.word_blit_outside (by omega), Image.word_setWord_of_ne (by decide), array.count]
  · rw [Image.blit_outside (by omega), Image.setWord_byte_of_ne (by decide), array.itemSize]
  · rw [Image.word_blit_outside (by omega), Image.word_setWord_self (by omega), List.length_append,
      List.length_singleton]
  · rw [List.length_append, List.length_singleton]
    exact room
  · intro i element found
    have inside := (List.getElem?_eq_some_iff.mp found).1
    rw [List.length_append, List.length_singleton] at inside
    have low := element_bound size inside room
    by_cases last : i = elems.length
    · subst last
      rw [List.getElem?_concat_length, Option.some.injEq] at found
      rw [Image.slice_blit_self, found]
    · rw [List.getElem?_append_left (by omega)] at found
      have before := Nat.mul_le_mul_right size (show i + 1 ≤ elems.length by omega)
      rw [Nat.succ_mul] at before
      rw [Image.slice_blit_outside (.inl before), Image.slice_setWord_outside (by omega)]
      exact array.elements i element found

/-- `array_pop` returns the last element. -/
theorem pop (api : BlockApi (Db ρ)) {last : List UInt8}
    (array : InlineArray (db.data root) size (elems ++ [last])) :
    ∃ image, arrayPop api root db = .ok last (db.write root image) ∧
      InlineArray image size elems := by
  have bounded := array.length_le
  have fits := array.fits
  rw [List.length_append, List.length_singleton] at bounded fits
  have read : arrayGet api root elems.length db = .ok last db := by
    rw [array.get, List.getElem?_concat_length]
  have length : (db.data root).word 1022 = elems.length + 1 := by
    rw [array.length, List.length_append, List.length_singleton]
  have fewer : sub32 (elems.length + 1) 1 = elems.length :=
    sub32_of_le (by omega) (by omega)
  refine ⟨(db.data root).setWord 1022 elems.length, ?_, ?_, ?_, ?_, ?_, ?_⟩
  · unfold arrayPop
    rw [load_bind, length, fewer, Code.bind_ok read, load_bind, length, fewer, store_bind]
    rfl
  · rw [Image.word_setWord_of_ne (by decide), array.count]
  · rw [Image.setWord_byte_of_ne (by decide), array.itemSize]
  · rw [Image.word_setWord_self (by omega)]
  · omega
  · intro i element found
    have inside := (List.getElem?_eq_some_iff.mp found).1
    have low := element_bound size (show i < elems.length + 1 by omega) fits
    rw [Image.slice_setWord_outside (by omega)]
    exact array.elements i element (by rw [List.getElem?_append_left inside, found])

end InlineArray

/-- The bytes of a block number in a list of blocks. -/
def wordBytes (word : Nat) : List UInt8 := (Image.ofWord word).slice 0 4

/-- The element `array_get` or `array_pop` yields for a block number, read as `u32`. -/
theorem word_of_wordBytes {word : Nat} (bounded : word < 4294967296) :
    (Image.ofList (wordBytes word)).word 0 = word := by
  have read :
      (Image.ofList (wordBytes word)).slice (4 * 0) 4 = (Image.ofWord word).slice (4 * 0) 4 :=
    Image.slice_ofList (wordBytes word)
  rw [Image.word_of_slice read, Image.word_ofWord bounded]

/-- A block that lists block numbers, as the freelist and the object list do. -/
structure Stack (image : Image) (words : List Nat) : Prop where
  array : InlineArray image 4 (words.map wordBytes)
  bounded : ∀ word ∈ words, word < 4294967296

namespace Stack

/-- The length word counts the words. -/
theorem length (stack : Stack image words) : image.word 1022 = words.length := by
  rw [stack.array.length, List.length_map]

/-- The root has room for 1021 words. -/
theorem fits (stack : Stack image words) : words.length ≤ 1021 := by
  have fits := stack.array.fits
  rwa [List.length_map] at fits

/-- The entries are the words of the root. -/
theorem word (stack : Stack image words) {i value : Nat} (found : words[i]? = some value) :
    image.word i = value := by
  have element := stack.array.elements i (wordBytes value) (by simp [found])
  rw [Nat.mul_comm] at element
  have read : image.slice (4 * i) 4 = (Image.ofWord value).slice (4 * 0) 4 := element
  rw [Image.word_of_slice read, Image.word_ofWord (stack.bounded _ (List.mem_of_getElem? found))]

/-- A new array of words is an empty stack. -/
theorem empty : Stack (emptyArray 4) [] := ⟨InlineArray.empty (by decide), by simp⟩

/-- A push with room left puts the word on top. -/
theorem push (api : BlockApi (Db ρ)) (stack : Stack (db.data root) words)
    (room : words.length < 1021) {value : Nat} (bounded : value < 4294967296) :
    ∃ image, arrayPush api root (Image.ofWord value) db = .ok () (db.write root image) ∧
      Stack image (words ++ [value]) := by
  obtain ⟨image, ran, array⟩ := stack.array.push api (by decide)
    (by simpa using room) (Image.ofWord value)
  refine ⟨image, ran, by simpa [wordBytes] using array, ?_⟩
  intro word member
  rcases List.mem_append.mp member with old | new
  · exact stack.bounded word old
  · rw [List.mem_singleton.mp new]
    exact bounded

/-- A pop takes the word from the top. -/
theorem pop (api : BlockApi (Db ρ)) {last : Nat} (stack : Stack (db.data root) (words ++ [last])) :
    ∃ image, arrayPop api root db = .ok (wordBytes last) (db.write root image) ∧
      Stack image words := by
  have array := stack.array
  rw [List.map_append, List.map_singleton] at array
  obtain ⟨image, ran, shorter⟩ := array.pop api
  exact ⟨image, ran, shorter, fun word member => stack.bounded word (List.mem_append_left _ member)⟩

/-- A read finds the word at its place. -/
theorem get (stack : Stack (db.data root) words) {i value : Nat} (found : words[i]? = some value) :
    arrayGet api root i db = .ok (wordBytes value) db := by
  rw [stack.array.get, List.getElem?_map, found]
  rfl

end Stack

end EverDb
