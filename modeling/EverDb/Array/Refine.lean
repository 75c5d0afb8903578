import EverDb.Array.Resize

/-!
# An array behaves as a list

`listOp` is what an array is for: the list operations, a refusal outside the length
and the cut at the new capacity. Every run of array calls does what the run of list
operations does.
-/

namespace EverDb

open Foundation

variable {ρ : Type} {api : BlockApi (Db ρ)} {contract : BlockContract api} {own : Ownership}
  {db : Db ρ} {root size limit : Nat} {elems : List (List UInt8)}

theorem ArrayRep.valid (array : ArrayRep contract limit own db root size elems) :
    contract.Valid own db ∧ own.writable root := by
  cases array with
  | small array room => exact ⟨array.valid, array.writable⟩
  | paged blocks indexes array within room => exact ⟨array.held.valid, array.held.writable⟩

/-- No array is longer than its blocks hold. -/
theorem ArrayRep.length_le (array : ArrayRep contract limit own db root size elems) :
    elems.length ≤ 2136997888 := by
  cases array with
  | small array room =>
      have fits := array.fits
      have capacity : smallCapacity size ≤ 4084 := Nat.div_le_self _ _
      omega
  | paged blocks indexes array within room =>
      have fits := array.fits
      have total := array.held.table.fits
      have product : blocks.length * itemsPerBlock size ≤ 521728 * 4096 :=
        Nat.mul_le_mul (by omega) (Nat.div_le_self _ _)
      omega

/-- Raising the length below the capacity adds an element of arbitrary bytes. -/
theorem ArrayRep.lengthen (array : ArrayRep contract limit own db root size elems)
    (positive : 0 < size) {capacity : Nat} (current : arrayCapacity root db = .ok capacity db)
    (below : elems.length < capacity) :
    ∃ element, ArrayRep contract limit own (db.setWord root 1022 (elems.length + 1)) root size
      (elems ++ [element]) := by
  have appended : ∀ {i : Nat} {element last : List UInt8}, (elems ++ [last])[i]? = some element →
      (i < elems.length ∧ elems[i]? = some element) ∨ (i = elems.length ∧ element = last) := by
    intro i element last found
    rcases Nat.lt_trichotomy i elems.length with less | here | more
    · exact .inl ⟨less, by rwa [List.getElem?_append_left less] at found⟩
    · subst here
      rw [List.getElem?_concat_length, Option.some.injEq] at found
      exact .inr ⟨rfl, found.symm⟩
    · rw [List.getElem?_eq_none (by simp; omega)] at found
      cases found
  cases array with
  | small array room =>
      rw [array.capacity positive] at current
      cases current
      have length : (elems ++ [(db.data root).slice (elems.length * size) size]).length =
        elems.length + 1 := by simp
      have longer := SmallArray.of_length array.valid array.writable array.count
        array.header.itemSize positive (Nat.le_trans (Nat.le_of_eq length) below)
        (fun i element found => by
          rcases appended found with ⟨_, old⟩ | ⟨rfl, rfl⟩
          · exact array.elements i element old
          · rfl) array.trailing
      rw [length] at longer
      exact ⟨_, .small longer room⟩
  | paged blocks indexes array within room =>
      rw [array.capacity positive] at current
      cases current
      have inside : elems.length / itemsPerBlock size < blocks.length := by
        apply Nat.div_lt_of_lt_mul
        rwa [Nat.mul_comm]
      have last := List.getElem?_eq_getElem inside
      have length : (elems ++ [(db.data blocks[elems.length / itemsPerBlock size]).slice
        (elems.length % itemsPerBlock size * size) size]).length = elems.length + 1 := by simp
      have longer := PagedArray.of_length array.held array.nonempty array.writable
        array.header.itemSize (Nat.le_trans (Nat.le_of_eq length) below)
        (fun i element block found there => by
          rcases appended found with ⟨_, old⟩ | ⟨rfl, rfl⟩
          · exact array.elements i element block old there
          · rw [last, Option.some.injEq] at there
            rw [there])
      rw [length] at longer
      exact ⟨_, .paged blocks indexes longer within room⟩

/-- The end of `array_push`, once there is room. -/
theorem arrayPush_store (array : ArrayRep contract limit own db root size elems)
    (positive : 0 < size)
    (small : size ≤ 255) {capacity : Nat} (current : arrayCapacity root db = .ok capacity db)
    (below : elems.length < capacity) (buffer : Image) :
    ∃ after, (load root lengthWord >>= fun length =>
        store root lengthWord (u32 (length + 1)) >>= fun _ =>
        load root lengthWord >>= fun length =>
        arraySet api root (sub32 length 1) buffer) db = .ok () after ∧
      ArrayRep contract limit own after root size (elems ++ [buffer.slice 0 size]) := by
  have bounded := array.length_le
  obtain ⟨element, longer⟩ := array.lengthen positive current below
  have length : ((db.setWord root 1022 (elems.length + 1)).data root).word 1022 =
      elems.length + 1 := by
    rw [longer.header.length, List.length_append, List.length_singleton]
  obtain ⟨after, ran, final⟩ :=
    (arraySet_spec longer positive small elems.length buffer).1 (by simp)
  rw [List.set_append_right _ _ (Nat.le_refl _), Nat.sub_self, List.set_cons_zero] at final
  refine ⟨after, ?_, final⟩
  rw [load_bind, array.header.length, store_bind, load_bind, u32_of_lt (by omega), length,
    sub32_of_le (by omega) (by omega), Nat.add_sub_cancel]
  exact ran

/-- `array_push` appends. -/
theorem arrayPush_spec (array : ArrayRep contract limit own db root size elems)
    (positive : 0 < size) (small : size ≤ 255) (limited : limit ≤ 521728)
    (needs : blocksFor size (elems.length + 1) ≤ limit) (buffer : Image) :
    ∃ later after, arrayPush api root buffer db = .ok () after ∧
      ArrayRep contract limit later after root size (elems ++ [buffer.slice 0 size]) := by
  have bounded := array.length_le
  obtain ⟨capacity, current⟩ : ∃ capacity, arrayCapacity root db = .ok capacity db := by
    cases array with
    | small array room => exact ⟨_, array.capacity positive⟩
    | paged blocks indexes array within room => exact ⟨_, array.capacity positive⟩
  have next : u32 (elems.length + 1) = elems.length + 1 := u32_of_lt (by omega)
  by_cases full : elems.length + 1 > capacity
  · have enough := le_newCapacity positive small (elems.length + 1)
    obtain ⟨later, resized, ran, larger, larger'⟩ :=
      arrayResize_spec array positive small limited needs
    rw [List.take_of_length_le (by omega)] at larger
    obtain ⟨after, stored, final⟩ := arrayPush_store larger positive small larger' (by omega) buffer
    refine ⟨later, after, ?_, final⟩
    unfold arrayPush
    rw [load_bind, array.header.length, Code.bind_ok current, next, if_pos full, Code.bind_ok ran]
    exact stored
  · obtain ⟨after, stored, final⟩ := arrayPush_store array positive small current (by omega) buffer
    refine ⟨own, after, ?_, final⟩
    unfold arrayPush
    rw [load_bind, array.header.length, Code.bind_ok current, next, if_neg full]
    exact stored

/-- `array_pop` removes the last element, and refuses when there is none. -/
theorem arrayPop_spec (array : ArrayRep contract limit own db root size elems) (positive : 0 < size)
    (small : size ≤ 255) :
    match elems.getLast? with
    | none => arrayPop api root db = .error errArrayIndexOutOfBounds db
    | some element => ∃ after, arrayPop api root db = .ok element after ∧
        ArrayRep contract limit own after root size elems.dropLast := by
  have bounded := array.length_le
  have read : arrayGet api root (sub32 elems.length 1) db = _ :=
    arrayGet_spec array positive small _
  cases last : elems.getLast? with
  | none =>
      have empty : elems = [] := List.getLast?_eq_none_iff.mp last
      subst empty
      unfold arrayPop
      rw [load_bind, array.header.length, Code.bind_error read]
  | some element =>
      have nonempty : elems ≠ [] := by
        rintro rfl
        cases last
      have length : 0 < elems.length := List.length_pos_of_ne_nil nonempty
      have before : sub32 elems.length 1 = elems.length - 1 := sub32_of_le length (by omega)
      rw [before, ← List.getLast?_eq_getElem?, last] at read
      have shorter := array.shorten positive (Nat.sub_le elems.length 1)
      rw [← List.dropLast_eq_take] at shorter
      refine ⟨_, ?_, shorter⟩
      unfold arrayPop
      rw [load_bind, array.header.length, before, Code.bind_ok read, load_bind, store_bind,
        array.header.length, before]
      rfl

/-- `array_init` makes an empty array. -/
theorem arrayInit_spec (valid : contract.Valid own db) (writable : own.writable root)
    (small : size ≤ 255) (room : 3 * limit ≤ own.room) :
    ∃ after, arrayInit root size db = .ok () after ∧
      ArrayRep contract limit own after root size [] := by
  have live := (contract.wf valid).writable_live _ writable
  have image : ((db.write root Image.zero).write root
      (((db.write root Image.zero).data root).setByte itemSizeByte (UInt8.ofNat size))).data root =
        Image.zero.setByte 4084 (UInt8.ofNat size) := by
    rw [Db.write_data_self, Db.write_data_self]
  refine ⟨_, rfl,
    .small ⟨contract.write (contract.write valid live _) live _, writable, ?_, ⟨?_, ?_⟩,
    by simp, by simp, ?_⟩ room⟩
  · rw [image, Image.word_setByte_of_ne (by decide), Image.word_zero]
  · rw [image, Image.setByte_self, UInt8.toNat_ofNat', Nat.mod_eq_of_lt (by omega)]
  · rw [image, Image.word_setByte_of_ne (by decide), Image.word_zero, List.length_nil]
  · intro offset _ below
    rw [image, Image.setByte_of_ne (by omega)]
    rfl

/-- The calls on an array. -/
inductive ArrayOp where
  | push (buffer : Image)
  | pop
  | get (index : Nat)
  | set (index : Nat) (buffer : Image)
  | resize (capacity : Nat)

/-- What a call reports: after a resize, the capacity. -/
inductive ArrayResult where
  | done
  | element (bytes : List UInt8)
  | capacity (count : Nat)
  | failed (code : Int)
deriving DecidableEq

/-- A call and its report. -/
def runArrayOp (api : BlockApi (Db ρ)) (root : Nat) : ArrayOp → Code (Db ρ) ArrayResult
  | .push buffer => arrayPush api root buffer >>= fun _ => pure .done
  | .pop => arrayPop api root >>= fun bytes => pure (.element bytes)
  | .get index => arrayGet api root index >>= fun bytes => pure (.element bytes)
  | .set index buffer => arraySet api root index buffer >>= fun _ => pure .done
  | .resize capacity => arrayResize api root capacity >>= fun _ =>
      arrayCapacity root >>= fun count => pure (.capacity count)

/-- A run of calls. A failed call reports its code and the run goes on. -/
def runArrayOps (api : BlockApi (Db ρ)) (root : Nat) : List ArrayOp → Code (Db ρ) (List ArrayResult)
  | [] => pure []
  | op :: ops =>
      (runArrayOp api root op).onError (fun code => pure (.failed code)) >>= fun result =>
        runArrayOps api root ops >>= fun results => pure (result :: results)

/-- What a call does to the list of elements. -/
def listOp (size : Nat) : ArrayOp → List (List UInt8) → ArrayResult × List (List UInt8)
  | .push buffer, elems => (.done, elems ++ [buffer.slice 0 size])
  | .pop, elems =>
      match elems.getLast? with
      | none => (.failed errArrayIndexOutOfBounds, elems)
      | some element => (.element element, elems.dropLast)
  | .get index, elems =>
      match elems[index]? with
      | none => (.failed errArrayIndexOutOfBounds, elems)
      | some element => (.element element, elems)
  | .set index buffer, elems =>
      if index < elems.length then (.done, elems.set index (buffer.slice 0 size))
      else (.failed errArrayIndexOutOfBounds, elems)
  | .resize capacity, elems =>
      (.capacity (newCapacity size capacity), elems.take (newCapacity size capacity))

/-- The reports and the final list of a run. -/
def listOps (size : Nat) : List ArrayOp → List (List UInt8) → List ArrayResult × List (List UInt8)
  | [], elems => ([], elems)
  | op :: ops, elems =>
      ((listOp size op elems).1 :: (listOps size ops (listOp size op elems).2).1,
        (listOps size ops (listOp size op elems).2).2)

/-- The data blocks that a call needs. -/
def opBlocks (size : Nat) : ArrayOp → List (List UInt8) → Nat
  | .push _, elems => blocksFor size (elems.length + 1)
  | .resize capacity, _ => blocksFor size capacity
  | _, _ => 0

/-- A run that never needs more than `limit` data blocks. -/
def OpsFit (size limit : Nat) : List ArrayOp → List (List UInt8) → Prop
  | [], _ => True
  | op :: ops, elems =>
      opBlocks size op elems ≤ limit ∧ OpsFit size limit ops (listOp size op elems).2

/-- One call does what the list operation does; a refusal changes nothing. -/
theorem runArrayOp_spec (array : ArrayRep contract limit own db root size elems)
    (positive : 0 < size) (small : size ≤ 255) (limited : limit ≤ 521728) (op : ArrayOp)
    (fits : opBlocks size op elems ≤ limit) :
    ∃ later after, (runArrayOp api root op).onError (fun code => pure (.failed code)) db =
        .ok (listOp size op elems).1 after ∧
      ArrayRep contract limit later after root size (listOp size op elems).2 ∧
      ∀ code, (listOp size op elems).1 = .failed code → after = db := by
  cases op with
  | push buffer =>
      obtain ⟨later, after, ran, final⟩ := arrayPush_spec array positive small limited fits buffer
      refine ⟨later, after, ?_, final, fun code refused => by cases refused⟩
      exact Code.onError_ok (Code.bind_ok ran)
  | pop =>
      have spec := arrayPop_spec array positive small
      cases last : elems.getLast? with
      | none =>
          simp only [last] at spec
          simp only [listOp, last]
          exact ⟨own, db, Code.onError_error (Code.bind_error spec), array, fun _ _ => rfl⟩
      | some element =>
          simp only [last] at spec
          obtain ⟨after, ran, final⟩ := spec
          simp only [listOp, last]
          exact ⟨own, after, Code.onError_ok (Code.bind_ok ran), final,
            fun code refused => by cases refused⟩
  | get index =>
      have spec : arrayGet api root index db = _ := arrayGet_spec array positive small index
      cases found : elems[index]? with
      | none =>
          simp only [found] at spec
          simp only [listOp, found]
          exact ⟨own, db, Code.onError_error (Code.bind_error spec), array, fun _ _ => rfl⟩
      | some element =>
          simp only [found] at spec
          simp only [listOp, found]
          exact ⟨own, db, Code.onError_ok (Code.bind_ok spec), array,
            fun code refused => by cases refused⟩
  | set index buffer =>
      obtain ⟨inside, outside⟩ := arraySet_spec array positive small index buffer
      by_cases below : index < elems.length
      · obtain ⟨after, ran, final⟩ := inside below
        simp only [listOp, if_pos below]
        exact ⟨own, after, Code.onError_ok (Code.bind_ok ran), final,
          fun code refused => by cases refused⟩
      · simp only [listOp, if_neg below]
        exact ⟨own, db, Code.onError_error (Code.bind_error (outside (by omega))), array,
          fun _ _ => rfl⟩
  | resize capacity =>
      obtain ⟨later, after, ran, final, current⟩ :=
        arrayResize_spec array positive small limited fits
      refine ⟨later, after, ?_, final, fun code refused => by cases refused⟩
      refine Code.onError_ok ((Code.bind_ok ran).trans ?_)
      rw [Code.bind_ok current]
      rfl

/-- A run of calls does what the run of list operations does. -/
theorem runArrayOps_spec (positive : 0 < size) (small : size ≤ 255) (limited : limit ≤ 521728)
    (ops : List ArrayOp) : ∀ {own : Ownership} {db : Db ρ} {elems : List (List UInt8)},
      ArrayRep contract limit own db root size elems → OpsFit size limit ops elems →
      ∃ later after, runArrayOps api root ops db = .ok (listOps size ops elems).1 after ∧
        ArrayRep contract limit later after root size (listOps size ops elems).2 := by
  induction ops with
  | nil => exact fun array _ => ⟨_, _, rfl, array⟩
  | cons op ops ih =>
      intro own db elems array fits
      obtain ⟨middle, between, ran, arrayBetween, _⟩ :=
        runArrayOp_spec array positive small limited op fits.1
      obtain ⟨later, after, rest, final⟩ := ih arrayBetween fits.2
      refine ⟨later, after, ?_, final⟩
      unfold runArrayOps
      rw [Code.bind_ok ran, Code.bind_ok rest]
      rfl

/-- From `array_init` on, every run of calls does what the list operations do: each
call after it too, and a call that is refused leaves the database as it was. A
resize reports a capacity that is large enough. -/
theorem array_refines_list (valid : contract.Valid own db) (writable : own.writable root)
    (positive : 0 < size) (small : size ≤ 255) (limited : limit ≤ 521728)
    (room : 3 * limit ≤ own.room) (ops : List ArrayOp) (fits : OpsFit size limit ops []) :
    (∀ capacity, capacity ≤ newCapacity size capacity) ∧
    ∃ after, (arrayInit root size >>= fun _ => runArrayOps api root ops) db =
        .ok (listOps size ops []).1 after ∧
      ∀ op, opBlocks size op (listOps size ops []).2 ≤ limit →
        ∃ last, (runArrayOp api root op).onError (fun code => pure (.failed code)) after =
            .ok (listOp size op (listOps size ops []).2).1 last ∧
          ∀ code, (listOp size op (listOps size ops []).2).1 = .failed code → last = after := by
  refine ⟨le_newCapacity positive small, ?_⟩
  obtain ⟨start, began, empty⟩ := arrayInit_spec valid writable small room
  obtain ⟨later, after, ran, array⟩ := runArrayOps_spec positive small limited ops empty fits
  refine ⟨after, by rw [Code.bind_ok began, ran], ?_⟩
  intro op needs
  obtain ⟨_, last, ranLast, _, refused⟩ := runArrayOp_spec array positive small limited op needs
  exact ⟨last, ranLast, refused⟩

/-- Elements of 255 bytes over the allocator of the unit tests: the array moves to data
blocks and back, and the last call is refused. -/
theorem array_refines_list_mock :
    let ops : List ArrayOp := [.push (Image.ofWord 7), .resize 17, .get 0, .resize 1, .pop, .pop]
    (∀ capacity, capacity ≤ newCapacity 255 capacity) ∧
    ∃ after, (arrayInit 1 255 >>= fun _ => runArrayOps mockApi 1 ops)
        ⟨fun _ => Image.zero, [2, 3, 4, 5, 6, 7]⟩ = .ok (listOps 255 ops []).1 after ∧
      ∀ op, opBlocks 255 op (listOps 255 ops []).2 ≤ 2 →
        ∃ last, (runArrayOp mockApi 1 op).onError (fun code => pure (.failed code)) after =
            .ok (listOp 255 op (listOps 255 ops []).2).1 last ∧
          ∀ code, (listOp 255 op (listOps 255 ops []).2).1 = .failed code → last = after := by
  intro ops
  have valid : mockContract.Valid (mockOwnership [1] 6) ⟨fun _ => Image.zero, [2, 3, 4, 5, 6, 7]⟩ :=
    mockValid_of_disjoint [1] [2, 3, 4, 5, 6, 7] _ (by decide) (by decide)
  have fits : OpsFit 255 2 ops [] := by
    refine And.intro (by decide)
      (And.intro (by decide) (And.intro (by decide) (And.intro (by decide)
      (And.intro (by decide) (And.intro (by decide) trivial)))))
  exact array_refines_list valid (by simp [mockOwnership]) (by decide) (by decide) (by decide)
    (by decide) ops fits

end EverDb
