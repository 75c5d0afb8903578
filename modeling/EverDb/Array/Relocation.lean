import EverDb.Array.Open
import EverDb.Array.Pointer
import EverDb.Btree.Relocation

/-!
# Arrays whose calls do not depend on the mapping

Inside its root an array is read and written without a call of a block function. A page
has to be made writable first, and when that moves the mapping the item size and the
length are reached through a pointer of before.
-/

namespace EverDb.Pointer

open Foundation

variable {ρ : Type} {api : BlockApi (Db ρ)} {db : Db ρ} {root index size base : Nat}
  {moves : Nat → Bool}

/-! ## Inside the root -/

/-- An element inside the root. -/
theorem arrayData_inRoot (api : BlockApi (Db ρ)) (inRoot : (db.data root).word nblocksWord = 0)
    (index base : Nat) (moves : Nat → Bool) :
    arrayData api root index ⟨db, base, moves⟩ = .ok
        (if index ≥ (db.data root).word lengthWord then none
          else some ⟨base, root, index * ptItemSize db root⟩)
        ⟨db, base, moves⟩ ∧
      EverDb.arrayData api root index db = .ok
        (if index ≥ (db.data root).word lengthWord then none
          else some (root, index * ptItemSize db root)) db := by
  unfold arrayData EverDb.arrayData
  rw [Code.here_bind, Code.access_bind (load_run _ _ _), load_bind]
  split
  · exact ⟨rfl, rfl⟩
  · rw [Code.access_bind (load_run _ _ _), Code.access_bind (Code.gets_run _ _),
      if_pos inRoot, load_bind, Code.gets_bind, if_pos inRoot]
    exact ⟨rfl, rfl⟩

/-- In the root, `array_get` makes no call that can move the mapping. -/
theorem arrayGet_inRoot (api : BlockApi (Db ρ)) (inRoot : (db.data root).word nblocksWord = 0)
    (index base : Nat) (moves : Nat → Bool) :
    arrayGet api root index ⟨db, base, moves⟩ =
      (EverDb.arrayGet api root index db).placed base moves := by
  obtain ⟨mapped, plain⟩ := arrayData_inRoot api inRoot index base moves
  unfold arrayGet EverDb.arrayGet
  rw [Code.here_bind, Code.bind_ok mapped, Code.bind_ok plain]
  split
  · rfl
  · simp only
    rw [Code.access_bind (Code.gets_run _ _), Code.access_ok (Code.gets_run _ _)]
    rfl

/-- In the root, `array_set` makes no call that can move the mapping. -/
theorem arraySet_inRoot (inRoot : (db.data root).word nblocksWord = 0) (index base : Nat)
    (moves : Nat → Bool) (buffer : Image) :
    arraySet api root index buffer ⟨db, base, moves⟩ =
      (EverDb.arraySet api root index buffer db).placed base moves := by
  obtain ⟨mapped, plain⟩ := arrayData_inRoot api inRoot index base moves
  unfold arraySet EverDb.arraySet
  rw [Code.here_bind, Code.bind_ok mapped, Code.bind_ok plain]
  split
  · rfl
  · simp only
    rw [Code.access_bind (Code.gets_run _ _), Code.access_ok (Code.update_run _ _)]
    rfl

/-- The end of `array_push`, inside the root. -/
theorem arrayPush_inRoot {capacity : Nat} (inRoot : (db.data root).word nblocksWord = 0)
    (current : arrayCapacity root db = .ok capacity db)
    (below : u32 ((db.data root).word lengthWord + 1) ≤ capacity)
    (buffer : Image) (base : Nat) (moves : Nat → Bool) :
    arrayPush api root buffer ⟨db, base, moves⟩ =
      (EverDb.arrayPush api root buffer db).placed base moves := by
  have still : ((db.setWord root lengthWord (u32 ((db.data root).word lengthWord + 1))).data
      root).word nblocksWord =
      0 := by
    rw [Db.setWord_data_self, Image.word_setWord_of_ne (by decide)]
    exact inRoot
  unfold arrayPush EverDb.arrayPush
  rw [Code.here_bind, Code.access_bind (load_run _ _ _), Code.access_bind current,
    if_neg (by omega), load_bind, Code.bind_ok current, if_neg (by omega), Code.pure_bind]
  change (Code.access base (load root lengthWord) >>= fun length =>
    Code.access base (store root lengthWord (u32 (length + 1))) >>= fun _ =>
      Code.access base (load root lengthWord) >>= fun length =>
        arraySet api root (sub32 length 1) buffer)
    ⟨db, base, moves⟩ = _
  rw [Code.access_bind (load_run _ _ _), Code.access_bind (store_run _ _ _ _),
    Code.access_bind (load_run _ _ _), arraySet_inRoot still]
  rfl

/-- In the root, `array_pop` makes no call that can move the mapping. -/
theorem arrayPop_inRoot (inRoot : (db.data root).word nblocksWord = 0) (base : Nat)
    (moves : Nat → Bool) :
    arrayPop api root ⟨db, base, moves⟩ = (EverDb.arrayPop api root db).placed base moves := by
  unfold arrayPop EverDb.arrayPop
  rw [Code.here_bind, Code.access_bind (load_run _ _ _), load_bind]
  have read := arrayGet_inRoot api inRoot (sub32 ((db.data root).word lengthWord) 1) base moves
  cases ran : EverDb.arrayGet api root (sub32 ((db.data root).word lengthWord) 1) db with
  | ok element after =>
      rw [ran] at read
      rw [Code.bind_ok read, Code.bind_ok ran, Code.access_bind (load_run _ _ _),
        Code.access_bind (store_run _ _ _ _)]
      rfl
  | error code after =>
      rw [ran] at read
      rw [Code.bind_error read, Code.bind_error ran]
      rfl
  | stuck =>
      rw [ran] at read
      rw [Code.bind_stuck read, Code.bind_stuck ran]
      rfl

/-! ## In the pages -/

/-- A page is made writable before its number is returned. -/
theorem pageWriteHostIndex_moves (paged : (db.data root).word nblocksWord ≠ 0)
    (index base : Nat) {page : Nat}
    {mapped : Mapped (Db ρ)}
    (ran : pageWriteHostIndex api root index ⟨db, base, Mapped.always⟩ = .ok page mapped) :
    base < mapped.base := by
  have moved :
      ∀ {right : Outcome (Db ρ) Nat}, Code.Matches .restless Eq (Mapped.nextBase base Mapped.always)
      (pageWriteHostIndex api root index ⟨db, base, Mapped.always⟩) right → base < mapped.base := by
    intro right same
    rw [ran] at same
    cases same with
    | ok _ _ onward => exact onward
  unfold pageWriteHostIndex at ran moved
  rw [Code.here_bind, Code.access_bind (load_run _ _ _)] at ran moved
  by_cases outside : index ≥ (db.data root).word nblocksWord
  · rw [if_pos outside] at ran
    cases ran
  rw [if_neg outside, if_neg paged] at moved
  by_cases low : index < levelOne
  · rw [if_pos low] at moved
    refine moved (Code.Follows.relocating_bind (fun root => do
      let block ← load root index
      api.modify block) rfl fun root => .here_bind fun pt valid =>
        (Code.Follows.access valid _).bind ?_)
    rintro block _ rfl
    exact .relocating _
  · rw [if_neg low] at moved
    refine moved (Code.Follows.relocating_bind (fun root => do
      let indexBlock ← load root (indexWord (index0 index))
      let indexBlock ← api.modify indexBlock
      let block ← load indexBlock (index1 index)
      api.modify block) rfl fun root => .here_bind fun pt valid =>
        (Code.Follows.access valid _).bind ?_)
    rintro indexBlock _ rfl
    refine (Code.Follows.relocating _).bind ?_
    rintro indexBlock _ rfl
    refine .here_bind fun ip valid => (Code.Follows.access valid _).bind ?_
    rintro block _ rfl
    exact .relocating _

/-- The item size is read through a pointer of before. -/
theorem arrayData_traps (paged : (db.data root).word nblocksWord ≠ 0)
    (inside : index < (db.data root).word lengthWord)
    (positive : 0 < ptItemSize db root) (base : Nat) :
    arrayData api root index ⟨db, base, Mapped.always⟩ = .stuck := by
  unfold arrayData
  rw [Code.here_bind, Code.access_bind (load_run _ _ _), if_neg (by omega),
    Code.access_bind (load_run _ _ _),
    Code.access_bind (Code.gets_run _ _), if_neg paged, Code.access_bind (divide_run positive db)]
  cases ran : pageWriteHostIndex api root (index / (blockSize / ptItemSize db root)) ⟨db, base,
    Mapped.always⟩ with
  | ok page mapped =>
      have moved := pageWriteHostIndex_moves paged _ _ ran
      have ranAbort :
          orAbort (pageWriteHostIndex api root (index / (blockSize / ptItemSize db root)))
          ⟨db, base, Mapped.always⟩ = .ok page mapped := by
        unfold orAbort
        rw [ran]
      rw [Code.bind_ok ranAbort, Code.here_bind]
      exact Code.bind_stuck (Code.access_stale (Nat.ne_of_lt moved) _)
  | error code mapped =>
      refine Code.bind_stuck ?_
      unfold orAbort
      rw [ran]
  | stuck =>
      refine Code.bind_stuck ?_
      unfold orAbort
      rw [ran]

/-- On a page, `array_set` stores through a pointer that the mapping has left behind. -/
theorem arraySet_traps (paged : (db.data root).word nblocksWord ≠ 0)
    (inside : index < (db.data root).word lengthWord)
    (positive : 0 < ptItemSize db root) (buffer : Image) (base : Nat) :
    arraySet api root index buffer ⟨db, base, Mapped.always⟩ = .stuck := by
  unfold arraySet
  rw [Code.here_bind]
  exact Code.bind_stuck (arrayData_traps paged inside positive base)

/-- On a page, `array_pop` reads through a pointer that the mapping has left behind. -/
theorem arrayPop_traps (api : BlockApi (Db ρ)) (paged : (db.data root).word nblocksWord ≠ 0)
    (filled : 0 < (db.data root).word lengthWord)
    (bounded : (db.data root).word lengthWord < 4294967296) (positive : 0 < ptItemSize db root)
    (base : Nat) : arrayPop api root ⟨db, base, Mapped.always⟩ = .stuck := by
  unfold arrayPop
  rw [Code.here_bind, Code.access_bind (load_run _ _ _), sub32_of_le filled bounded]
  refine Code.bind_stuck ?_
  unfold arrayGet
  rw [Code.here_bind]
  exact Code.bind_stuck (arrayData_traps paged (by omega) positive base)

/-- The end of `array_push` on a paged array. -/
theorem arrayPush_storeTraps (paged : (db.data root).word nblocksWord ≠ 0)
    (bounded : (db.data root).word lengthWord + 1 < 4294967296) (positive : 0 < ptItemSize db root)
    (buffer : Image) (base : Nat) :
    (Code.access base (load root lengthWord) >>= fun length =>
      Code.access base (store root lengthWord (u32 (length + 1))) >>= fun _ =>
        Code.access base (load root lengthWord) >>= fun length =>
          arraySet api root (sub32 length 1) buffer)
      ⟨db, base, Mapped.always⟩ = .stuck := by
  have length : ((db.setWord root lengthWord ((db.data root).word lengthWord + 1)).data root).word
      lengthWord =
      (db.data root).word lengthWord + 1 := by
    rw [Db.setWord_data_self, Image.word_setWord_self bounded]
  rw [Code.access_bind (load_run _ _ _), u32_of_lt bounded,
    Code.access_bind (store_run _ _ _ _),
    Code.access_bind (load_run _ _ _), length, sub32_of_le (by omega) bounded, Nat.add_sub_cancel]
  refine arraySet_traps ?_ (by omega) ?_ buffer base
  · rw [Db.setWord_data_self, Image.word_setWord_of_ne (by decide)]
    exact paged
  · rw [ptItemSize, Db.setWord_data_self, Image.setWord_byte_of_ne (by decide)]
    exact positive

/-! ## The condition -/

variable {contract : BlockContract api} {own : Ownership} {length : Nat} {blocks indexes : List Nat}
  {elems : List (List UInt8)}

/-- A paged array is pushed to through an old pointer. -/
theorem arrayPush_pagesTrap (pages : OpenPages contract own db root size length blocks indexes)
    (positive : 0 < size) (buffer : Image) (base : Nat) :
    (Code.access base (load root lengthWord) >>= fun length =>
      Code.access base (store root lengthWord (u32 (length + 1))) >>= fun _ =>
        Code.access base (load root lengthWord) >>= fun length =>
          arraySet api root (sub32 length 1) buffer)
      ⟨db, base, Mapped.always⟩ = .stuck := by
  have itemSize : ptItemSize db root = size := pages.header.itemSize
  have stored : (db.data root).word lengthWord = length := pages.header.length
  have bounded := pages.length_lt
  exact arrayPush_storeTraps pages.nblocks (by omega) (by omega) buffer base

/-- A push that needs pages or finds them: it returns where the mapping stays, and traps
when every call moves it. -/
theorem arrayPush_traps (array : WritableArray contract own db root size elems)
    (positive : 0 < size) (small : size ≤ 255) (needs : blocksFor size (elems.length + 1) ≤ 521728)
    (room : 2 * blocksFor size (elems.length + 1) + 2 ≤ own.room)
    (outside : ¬(ptNblocks db root = 0 ∧ elems.length < smallCapacity size))
    (buffer : Image) (base : Nat) :
    (∃ after, EverDb.arrayPush api root buffer db = .ok () after) ∧
      arrayPush api root buffer ⟨db, base, Mapped.always⟩ = .stuck := by
  have bounded := array.length_lt
  have stored : (db.data root).word lengthWord = elems.length := array.header.length
  have next : u32 (elems.length + 1) = elems.length + 1 := u32_of_lt bounded
  obtain ⟨capacity, current⟩ := array.exists_capacity positive
  unfold arrayPush EverDb.arrayPush
  rw [Code.here_bind, Code.access_bind (load_run _ _ _), stored, next,
    Code.access_bind current, load_bind, stored, next, Code.bind_ok current]
  by_cases full : elems.length + 1 > capacity
  · rw [if_pos full, if_pos full]
    -- after the resize the array has pages
    obtain ⟨later, after, blocks, indexes, resized, pages, below, enough⟩ :=
      array.resize_full positive small current (by omega) needs room
    obtain ⟨final, returned⟩ := pages.store_returns positive below enough buffer
    refine ⟨⟨final, by rw [Code.bind_ok resized]; exact returned⟩, ?_⟩
    have same : Code.Matches .restless Eq _ _ _ :=
      arrayResize_follows api root (elems.length + 1) db base Mapped.always rfl
    rw [resized] at same
    revert same
    generalize resizeRan :
      arrayResize api root (elems.length + 1) ⟨db, base, Mapped.always⟩ = result
    intro same
    cases same with
    | ok _ admitted _ =>
        cases admitted
        rw [Code.bind_ok resizeRan, Code.here_bind]
        exact arrayPush_pagesTrap pages positive buffer _
    | trapped _ => exact Code.bind_stuck resizeRan
  · rw [if_neg full, if_neg full, Code.pure_bind]
    cases array with
    | small array =>
        rw [array.capacity positive] at current
        cases current
        exact absurd ⟨array.count, by omega⟩ outside
    | paged blocks indexes pages elements =>
        rw [pages.held.capacity pages.nonempty pages.header.itemSize positive] at current
        cases current
        exact ⟨pages.store_returns positive (by omega) (by omega) buffer,
          arrayPush_pagesTrap pages positive buffer base⟩

/-- In its root, and with room there, a push does not depend on the mapping. -/
theorem arrayPush_still (array : WritableArray contract own db root size elems)
    (positive : 0 < size) (inRoot : ptNblocks db root = 0)
    (spare : elems.length < smallCapacity size) (buffer : Image) :
    Code.Relocatable (arrayPush api root buffer) db := by
  rw [Code.Follows.relocatable_iff fun _ => arrayPush_follows api root buffer]
  intro base moves
  have bounded := array.length_lt
  have stored : (db.data root).word lengthWord = elems.length := array.header.length
  have current : arrayCapacity root db = .ok (smallCapacity size) db := by
    cases array with
    | small array => exact array.capacity positive
    | paged blocks indexes pages elements => exact absurd inRoot pages.nblocks
  rw [arrayPush_inRoot inRoot current (by rw [stored, u32_of_lt bounded]; omega),
    Outcome.stored_placed]

/-- A push that needs pages or finds them depends on the mapping. -/
theorem arrayPush_moved (array : WritableArray contract own db root size elems)
    (positive : 0 < size) (small : size ≤ 255) (needs : blocksFor size (elems.length + 1) ≤ 521728)
    (room : 2 * blocksFor size (elems.length + 1) + 2 ≤ own.room)
    (outside : ¬(ptNblocks db root = 0 ∧ elems.length < smallCapacity size)) (buffer : Image) :
    ¬Code.Relocatable (arrayPush api root buffer) db := by
  rw [Code.Follows.relocatable_iff fun _ => arrayPush_follows api root buffer]
  intro same
  have result := same 0 Mapped.always
  obtain ⟨⟨after, returned⟩, trapped⟩ :=
    arrayPush_traps array positive small needs room outside buffer 0
  rw [trapped, returned] at result
  cases result

/-- `array_push` does not depend on the mapping exactly when the array is in its root and
has room there. -/
theorem arrayPush_relocatable (array : WritableArray contract own db root size elems)
    (positive : 0 < size) (small : size ≤ 255) (needs : blocksFor size (elems.length + 1) ≤ 521728)
    (room : 2 * blocksFor size (elems.length + 1) + 2 ≤ own.room) (buffer : Image) :
    Code.Relocatable (arrayPush api root buffer) db ↔
    ptNblocks db root = 0 ∧ elems.length < smallCapacity size := by
  constructor
  · intro same
    by_contra outside
    exact arrayPush_moved array positive small needs room outside buffer same
  · rintro ⟨inRoot, spare⟩
    exact arrayPush_still array positive inRoot spare buffer

/-- An array with one element in a page, over the allocator of the unit tests. -/
def pagedElement : Db (List Nat) where
  data := fun block =>
    if block = 1 then
      (((Image.zero.setWord 0 2).setWord nblocksWord 1).setWord lengthWord 1).setByte itemSizeByte 4
    else Image.zero
  ctl := [3, 4, 5, 6]

/-- The example is an array of one element on a page. -/
theorem pagedElement_paged :
    PagedArray mockContract (mockOwnership [1, 2] 4) pagedElement 1 4 [2] [] [[0, 0, 0, 0]] := by
  have held : HeldTable mockContract (mockOwnership [1, 2] 4) pagedElement 1 509 [2] [] := by
    refine ⟨mockValid_of_disjoint [1, 2] [3, 4, 5, 6] _ (by decide) (by decide),
      ?_, by simp [mockOwnership], by simp [mockOwnership], by decide⟩
    refine ⟨by decide, by decide, by decide, by decide, ?_, by simp, by simp, ?_⟩
    · intro i block low found
      cases i with
      | zero => cases found; decide
      | succ i => simp at found
    · intro j _ bounded
      have other : 512 + j ≠ 0 ∧ 512 + j ≠ nblocksWord ∧ 512 + j ≠ lengthWord := by
        simp only [nblocksWord, lengthWord]
        omega
      simp only [pagedElement, if_true]
      rw [Image.word_setByte_of_ne (by simp only [itemSizeByte]; omega),
        Image.word_setWord_of_ne other.2.2,
        Image.word_setWord_of_ne other.2.1, Image.word_setWord_of_ne other.1]
      rfl
  refine ⟨held, by simp, by simp [mockOwnership], ⟨by decide, by decide⟩, by decide,
    fun i element block found at_ => ?_⟩
  cases i with
  | zero => cases found; cases at_; decide
  | succ i => simp at found

/-- The example is an array whose blocks are writable. -/
theorem pagedElement_open :
    WritableArray mockContract (mockOwnership [1, 2] 4) pagedElement 1 4 [[0, 0, 0, 0]] :=
  .paged [2] [] ⟨pagedElement_paged.held, by decide, pagedElement_paged.header, by decide⟩
    pagedElement_paged.elements

/-- A push behind it depends on the mapping. -/
theorem arrayPush_relocatable_paged :
    ¬Code.Relocatable (arrayPush mockApi 1 Image.zero) pagedElement := by
  have same := arrayPush_relocatable pagedElement_open (by decide) (by decide) (by decide)
    (by decide) Image.zero
  exact fun still => absurd (same.mp still).1 (by decide)

/-- A pop from the pages depends on the mapping. -/
theorem arrayPop_moved (array : WritableArray contract own db root size elems)
    (positive : 0 < size) (room : 2 ≤ own.room) (paged : ptNblocks db root ≠ 0)
    (nonempty : elems ≠ []) : ¬Code.Relocatable (arrayPop api root) db := by
  rw [Code.Follows.relocatable_iff fun _ => arrayPop_follows api root]
  intro same
  have bounded := array.length_lt
  have stored : (db.data root).word lengthWord = elems.length := array.header.length
  have itemSize : ptItemSize db root = size := array.header.itemSize
  have count : 0 < elems.length := List.length_pos_of_ne_nil nonempty
  have last : sub32 elems.length 1 = elems.length - 1 := sub32_of_le count (by omega)
  cases array with
  | small array => exact paged array.count
  | paged blocks indexes pages elements =>
      have inside : elems.length - 1 < elems.length := by omega
      obtain ⟨page, after, found, itemSizeAfter, storedAfter⟩ := pages.page positive inside room
      have returned : EverDb.arrayGet api root (elems.length - 1) db =
          .ok ((after.data page).slice ((elems.length - 1) % itemsPerBlock size * size)
            (ptItemSize after root)) after := by
        unfold EverDb.arrayGet
        rw [Code.bind_ok found]
        rfl
      have trapped := arrayPop_traps api paged (by omega) (by omega) (by omega) 0
      have result := same 0 Mapped.always
      rw [trapped] at result
      unfold EverDb.arrayPop at result
      rw [load_bind, stored, last, Code.bind_ok returned, load_bind, store_bind] at result
      cases result

/-- In its root, and from an empty array, a pop does not depend on the mapping. -/
theorem arrayPop_still (array : WritableArray contract own db root size elems)
    (either : ptNblocks db root = 0 ∨ elems = []) : Code.Relocatable (arrayPop api root) db := by
  rw [Code.Follows.relocatable_iff fun _ => arrayPop_follows api root]
  intro base moves
  have stored : (db.data root).word lengthWord = elems.length := array.header.length
  rcases either with inRoot | rfl
  · rw [arrayPop_inRoot inRoot, Outcome.stored_placed]
  · -- an index outside the length is refused before any call
    have refused :
        arrayGet api root (sub32 0 1) ⟨db, base, moves⟩ = .error errArrayIndexOutOfBounds
        ⟨db, base, moves⟩ := by
      unfold arrayGet arrayData
      rw [Code.here_bind, Code.bind_assoc, Code.here_bind, Code.bind_assoc,
        Code.access_bind (load_run _ _ _), stored]
      rfl
    have refusedPlain :
        EverDb.arrayGet api root (sub32 0 1) db = .error errArrayIndexOutOfBounds db := by
      unfold EverDb.arrayGet EverDb.arrayData
      rw [Code.bind_assoc, load_bind, stored]
      rfl
    unfold arrayPop EverDb.arrayPop
    rw [Code.here_bind, Code.access_bind (load_run _ _ _), stored, load_bind, stored]
    rw [show ([] : List (List UInt8)).length = 0 from rfl, Code.bind_error refused,
      Code.bind_error refusedPlain]
    rfl

/-- `array_pop` does not depend on the mapping exactly when the array is in its root or
empty. -/
theorem arrayPop_relocatable (array : WritableArray contract own db root size elems)
    (positive : 0 < size) (room : 2 ≤ own.room) :
    Code.Relocatable (arrayPop api root) db ↔ ptNblocks db root = 0 ∨ elems = [] := by
  constructor
  · intro same
    by_contra outside
    obtain ⟨paged, nonempty⟩ := not_or.mp outside
    exact arrayPop_moved array positive room paged nonempty same
  · exact arrayPop_still array

/-- A removal from the array of one page depends on the mapping. -/
theorem arrayPop_relocatable_paged : ¬Code.Relocatable (arrayPop mockApi 1) pagedElement := by
  have same := arrayPop_relocatable pagedElement_open (by decide) (by decide)
  exact fun still => (same.mp still).elim (by decide) (by decide)

/-! ## Resizing -/

/-- `array_capacity`, as a number. -/
def capacityOf (db : Db ρ) (root : Nat) : Nat :=
  if ptNblocks db root = 0 then smallBytes / ptItemSize db root
  else u32 (ptNblocks db root * (blockSize / ptItemSize db root))

/-- The data blocks that `array_resize` asks for. -/
abbrev pagesFor (db : Db ρ) (root capacity : Nat) : Nat :=
  u32 (capacity + blockSize / ptItemSize db root - 1) / (blockSize / ptItemSize db root)

/-- A resize that moves the elements out of the root, or back into it. -/
def MovesElements (db : Db ρ) (root capacity : Nat) : Prop :=
  capacity ≠ capacityOf db root ∧
    if capacity ≤ smallBytes / ptItemSize db root then ptNblocks db root ≠ 0
    else ptNblocks db root = 0 ∧ pagesFor db root capacity ≠ 0

/-- `array_capacity` computes the capacity from the header. -/
theorem arrayCapacity_run (positive : 0 < ptItemSize db root) :
    arrayCapacity root db = .ok (capacityOf db root) db := by
  unfold arrayCapacity capacityOf
  rw [load_bind, Code.gets_bind]
  by_cases inRoot : ptNblocks db root = 0
  · rw [if_pos inRoot, if_pos (show (db.data root).word nblocksWord = 0 from inRoot),
      divide_run positive]
  · rw [if_neg inRoot, if_neg (show ¬(db.data root).word nblocksWord = 0 from inRoot),
      Code.bind_ok (divide_run positive db)]
    rfl

/-- A page is found only in an array that has pages. -/
theorem paged_of_pageWriteHostIndex {page : Nat} {after : Db ρ}
    (ran : EverDb.pageWriteHostIndex api root index db = .ok page after) :
    (db.data root).word nblocksWord ≠ 0 := by
  intro none
  unfold EverDb.pageWriteHostIndex at ran
  rw [load_bind, none, if_pos (Nat.zero_le _)] at ran
  cases ran

/-- Finding a page with every call moving the mapping: it moves, or traps. -/
theorem pageWriteHostIndex_restless {page : Nat} {after : Db ρ}
    (ran : EverDb.pageWriteHostIndex api root index db = .ok page after) (base : Nat) :
    pageWriteHostIndex api root index ⟨db, base, Mapped.always⟩ = .stuck ∨
      ∃ now, base ≠ now ∧ pageWriteHostIndex api root index ⟨db, base, Mapped.always⟩ = .ok page
        ⟨after, now, Mapped.always⟩ := by
  rcases (pageWriteHostIndex_follows api root index).restless_ok ran base with
    trapped | ⟨now, _, moved⟩
  · exact .inl trapped
  · exact .inr ⟨now, Nat.ne_of_lt
      (pageWriteHostIndex_moves (paged_of_pageWriteHostIndex ran) index base moved), moved⟩

/-- The bytes to copy back are counted through a pointer of before. -/
theorem arrayMakeSmall_traps {capacity : Nat} {after : Db ρ}
    (ran : EverDb.arrayMakeSmall api root capacity db = .ok () after) (base : Nat) :
    arrayMakeSmall api root capacity base ⟨db, base, Mapped.always⟩ = .stuck := by
  unfold EverDb.arrayMakeSmall at ran
  obtain ⟨page, middle, found, _⟩ := Code.of_bind_ok ran
  unfold arrayMakeSmall
  rcases pageWriteHostIndex_restless found base with trapped | ⟨now, stale, moved⟩
  · exact Code.bind_stuck trapped
  · rw [Code.bind_ok moved, Code.here_bind]
    exact Code.bind_stuck (Code.access_stale stale _)

/-- The item size is read through a pointer computed before the first page was made
writable. -/
theorem arrayMakePaged_traps {capacity nblocks : Nat} {after : Db ρ}
    (ran : EverDb.arrayMakePaged api root capacity nblocks db = .ok () after) (base : Nat) :
    arrayMakePaged api root capacity nblocks base ⟨db, base, Mapped.always⟩ = .stuck := by
  unfold EverDb.arrayMakePaged at ran
  rw [Code.gets_bind, Code.update_bind] at ran
  obtain ⟨_, resized, grown, rest⟩ := Code.of_bind_ok ran
  obtain ⟨page, middle, found, _⟩ := Code.of_bind_ok rest
  unfold arrayMakePaged
  rw [Code.access_bind (Code.gets_run _ _), Code.access_bind (Code.update_run _ _)]
  rcases (pageResize_follows api root nblocks).restless_ok grown base with trapped | ⟨now, _, moved⟩
  · exact Code.bind_stuck trapped
  · rw [Code.bind_ok moved, Code.here_bind]
    rcases pageWriteHostIndex_restless found now with trapped | ⟨later, stale, again⟩
    · exact Code.bind_stuck trapped
    · rw [Code.bind_ok again, Code.here_bind]
      exact Code.bind_stuck (Code.access_stale stale _)

/-- `array_resize` does not depend on the mapping exactly when it leaves the elements in
the root, or in the pages. -/
theorem arrayResize_relocatable {capacity : Nat} {after : Db ρ} (positive : 0 < ptItemSize db root)
    (ran : EverDb.arrayResize api root capacity db = .ok () after) :
    Code.Relocatable (arrayResize api root capacity) db ↔ ¬MovesElements db root capacity := by
  rw [Code.Follows.relocatable_iff fun _ => arrayResize_follows api root capacity]
  have current := arrayCapacity_run positive
  constructor
  · rintro same ⟨other, moves⟩
    have result := same 0 Mapped.always
    rw [ran] at result
    suffices trapped : arrayResize api root capacity ⟨db, 0, Mapped.always⟩ = .stuck by
      rw [trapped] at result
      cases result
    unfold EverDb.arrayResize at ran
    unfold arrayResize
    rw [Code.bind_ok current, if_neg other, Code.gets_bind, Code.bind_ok (divide_run positive db),
      load_bind] at ran
    rw [Code.here_bind, Code.access_bind current, if_neg other,
      Code.access_bind (Code.gets_run _ _),
      Code.access_bind (divide_run positive db), Code.access_bind (load_run _ _ _)]
    by_cases fits : capacity ≤ smallBytes / ptItemSize db root
    · rw [if_pos fits] at moves
      have paged : (db.data root).word nblocksWord ≠ 0 := moves
      rw [if_pos fits, if_pos paged] at ran ⊢
      obtain ⟨_, _, made, _⟩ := Code.of_bind_ok ran
      exact Code.bind_stuck (arrayMakeSmall_traps made 0)
    · rw [if_neg fits] at moves
      rw [if_neg fits, Code.bind_ok (divide_run positive db)] at ran
      rw [if_neg fits, Code.access_bind (divide_run positive db)]
      obtain ⟨_, _, made, _⟩ := Code.of_bind_ok ran
      refine Code.bind_stuck ?_
      unfold EverDb.arrayRepage at made
      unfold arrayRepage
      have empty : (db.data root).word nblocksWord = 0 := moves.1
      rw [load_bind, empty, if_neg (Ne.symm moves.2), if_pos rfl] at made
      rw [Code.access_bind (load_run _ _ _), empty, if_neg (Ne.symm moves.2), if_pos rfl]
      exact arrayMakePaged_traps made 0
  · intro stays base moves
    refine Code.Agrees.stored_eq ?_
    unfold arrayResize EverDb.arrayResize
    rw [Code.here_bind, Code.access_bind current, Code.bind_ok current]
    by_cases same : capacity = capacityOf db root
    · rw [if_pos same, if_pos same]
      exact .ok rfl
    have keeps := fun condition => stays ⟨same, condition⟩
    rw [if_neg same, if_neg same, Code.access_bind (Code.gets_run _ _),
      Code.access_bind (divide_run positive db),
      Code.access_bind (load_run _ _ _), Code.gets_bind,
        Code.bind_ok (divide_run positive db), load_bind]
    by_cases fits : capacity ≤ smallBytes / ptItemSize db root
    · rw [if_pos fits] at keeps
      have inRoot : ¬(db.data root).word nblocksWord ≠ 0 := keeps
      rw [if_pos fits, if_pos fits, if_neg inRoot, if_neg inRoot]
      exact Code.Renews.access_last _ db moves
    · rw [if_neg fits] at keeps
      rw [if_neg fits, if_neg fits, Code.access_bind (divide_run positive db),
        Code.bind_ok (divide_run positive db)]
      unfold arrayRepage EverDb.arrayRepage
      rw [Code.bind_assoc, Code.bind_assoc, Code.access_bind (load_run _ _ _), load_bind]
      by_cases settled : (db.data root).word nblocksWord = pagesFor db root capacity
      · rw [if_pos settled, if_pos settled]
        exact Code.Renews.access_last _ db moves
      · have paged : ¬(db.data root).word nblocksWord = 0 := fun none =>
          keeps ⟨none, fun few => settled (none.trans few.symm)⟩
        rw [if_neg settled, if_neg settled, if_neg paged, if_neg paged, Code.bind_assoc]
        -- the pointer is computed anew after the pages were resized
        refine ((pageResize_renews api root (pagesFor db root capacity) base).bind
          fun now _ _ _ => ?_) db moves
        exact .here_bind (.access_last _)

/-- Bringing the element back into the root depends on the mapping. -/
theorem arrayResize_relocatable_paged :
    ¬Code.Relocatable (arrayResize mockApi 1 8) pagedElement := by
  obtain ⟨_, after, ran, _⟩ := pagedElement_paged.resize_small (by decide) (by decide)
    (show 8 ≤ smallCapacity 4 by decide)
    (by decide) (by decide)
  exact fun same => (arrayResize_relocatable (by decide) ran).mp same ⟨by decide, by decide⟩

end EverDb.Pointer
