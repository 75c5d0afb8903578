import EverDb.Array.Model
import EverDb.Page.Pointer

/-!
# Arrays through pointers

The functions of `array.c` with the pointers they keep: `array_data`, `array_get`,
`array_set` and `array_pop` read through a `pt` that was computed before
`page_write_host_index`.
-/

namespace EverDb.Pointer

open Foundation

variable {ρ : Type}

/-- An element: the base from which its page was computed, the page and the offset. -/
structure Element where
  base : Nat
  block : Nat
  offset : Nat

/-- The branch of `array_resize` that brings the elements back into the root; it leaves a
new `pt`. -/
def arrayMakeSmall (api : BlockApi (Db ρ)) (root smallCapacity pt : Nat) :
    Code (Mapped (Db ρ)) Nat := do
  let firstPage ← pageWriteHostIndex api root 0
  let firstBlock ← .here
  -- the bytes to copy are counted through the old `pt`
  let _ ← .access pt (.gets fun db => ptItemSize db root)
  let data ← .access firstBlock (.gets fun db => db.data firstPage)
  pageResize api root 0
  let pt ← .here
  .access pt (.update fun db =>
    db.write root ((db.data root).blit 0 data 0 (smallCapacity * ptItemSize db root)))
  pure pt

/-- The branch of `array_resize` that turns a small array into a paged one. -/
def arrayMakePaged (api : BlockApi (Db ρ)) (root smallCapacity nblocks pt : Nat) :
    Code (Mapped (Db ρ)) Nat := do
  let data ← .access pt (.gets fun db => db.data root)
  .access pt (.update fun db =>
    db.write root ((db.data root).blit 0 Image.zero 0 (smallCapacity * ptItemSize db root)))
  pageResize api root nblocks
  let pt ← .here
  let firstPage ← pageWriteHostIndex api root 0
  let firstBlock ← .here
  let itemSize ← .access pt (.gets fun db => ptItemSize db root)
  .access firstBlock (.update fun db =>
    db.write firstPage ((db.data firstPage).blit 0 data 0 (smallCapacity * itemSize)))
  pure pt

/-- The step of `array_resize` that brings a larger array to `nblocks` data blocks. -/
def arrayRepage (api : BlockApi (Db ρ)) (root smallCapacity nblocks pt : Nat) :
    Code (Mapped (Db ρ)) Nat := do
  let current ← .access pt (load root nblocksWord)
  if current = nblocks then pure pt
  else if current = 0 then arrayMakePaged api root smallCapacity nblocks pt
  else do
    pageResize api root nblocks
    .here

/-- `array_resize`. -/
def arrayResize (api : BlockApi (Db ρ)) (root capacity : Nat) : Code (Mapped (Db ρ)) Unit := do
  let pt ← .here
  let currentCapacity ← .access pt (arrayCapacity root)
  if capacity = currentCapacity then pure ()
  else do
    let itemSize ← .access pt (.gets fun db => ptItemSize db root)
    let smallCapacity ← .access pt (divide smallBytes itemSize)
    let current ← .access pt (load root nblocksWord)
    if capacity ≤ smallCapacity then do
      let pt ← if current ≠ 0 then arrayMakeSmall api root smallCapacity pt else pure pt
      .access pt (truncateLength root smallCapacity)
    else do
      let itemsPerBlock ← .access pt (divide blockSize itemSize)
      let nblocks := u32 (capacity + itemsPerBlock - 1) / itemsPerBlock
      let pt ← arrayRepage api root smallCapacity nblocks pt
      .access pt (truncateLength root (u32 (nblocks * itemsPerBlock)))

/-- `array_data`. -/
def arrayData (api : BlockApi (Db ρ)) (root index : Nat) :
    Code (Mapped (Db ρ)) (Option Element) := do
  let pt ← .here
  let length ← .access pt (load root lengthWord)
  if index ≥ length then pure none
  else do
    let nblocks ← .access pt (load root nblocksWord)
    let itemSize ← .access pt (.gets fun db => ptItemSize db root)
    if nblocks = 0 then pure (some ⟨pt, root, index * itemSize⟩)
    else do
      let itemsPerBlock ← .access pt (divide blockSize itemSize)
      let page ← orAbort (pageWriteHostIndex api root (index / itemsPerBlock))
      let block ← .here
      -- `pt` was computed before the call
      let itemSize ← .access pt (.gets fun db => ptItemSize db root)
      pure (some ⟨block, page, index % itemsPerBlock * itemSize⟩)

/-- `array_get`. -/
def arrayGet (api : BlockApi (Db ρ)) (root index : Nat) : Code (Mapped (Db ρ)) (List UInt8) := do
  let pt ← .here
  match ← arrayData api root index with
  | none => .fail errArrayIndexOutOfBounds
  | some element => do
      let itemSize ← .access pt (.gets fun db => ptItemSize db root)
      .access element.base (.gets fun db => (db.data element.block).slice element.offset itemSize)

/-- `array_set`. -/
def arraySet (api : BlockApi (Db ρ)) (root index : Nat) (buffer : Image) :
    Code (Mapped (Db ρ)) Unit := do
  let pt ← .here
  match ← arrayData api root index with
  | none => .fail errArrayIndexOutOfBounds
  | some element => do
      let itemSize ← .access pt (.gets fun db => ptItemSize db root)
      .access element.base (.update fun db =>
        db.write element.block ((db.data element.block).blit element.offset buffer 0 itemSize))

/-- `array_push`. -/
def arrayPush (api : BlockApi (Db ρ)) (root : Nat) (buffer : Image) :
    Code (Mapped (Db ρ)) Unit := do
  let pt ← .here
  let length ← .access pt (load root lengthWord)
  let capacity ← .access pt (arrayCapacity root)
  let pt ← if u32 (length + 1) > capacity then do
      arrayResize api root (u32 (length + 1))
      .here
    else pure pt
  let length ← .access pt (load root lengthWord)
  .access pt (store root lengthWord (u32 (length + 1)))
  let length ← .access pt (load root lengthWord)
  arraySet api root (sub32 length 1) buffer

/-- `array_pop`. The length is lowered through the `pt` of the beginning. -/
def arrayPop (api : BlockApi (Db ρ)) (root : Nat) : Code (Mapped (Db ρ)) (List UInt8) := do
  let pt ← .here
  let length ← .access pt (load root lengthWord)
  let element ← arrayGet api root (sub32 length 1)
  let length ← .access pt (load root lengthWord)
  .access pt (store root lengthWord (sub32 length 1))
  pure element

/-! ## What the pointers reach -/

variable {mode : Code.Mode} {pt : Nat} (api : BlockApi (Db ρ)) (root : Nat)

/-- An element and the place that `array_data` computes from block numbers. -/
def Element.Reaches (mode : Code.Mode) : Option Element → Option (Nat × Nat) → Prop
  | none, none => True
  | some element, some place => mode.Valid element.base ∧ place = (element.block, element.offset)
  | some _, none => False
  | none, some _ => False

/-- A failure that ends in `abort()` has no result on either side. -/
theorem orAbort_follows {α : Type} {left : Code (Mapped (Db ρ)) α} {right : Code (Db ρ) α}
    (same : Code.Follows mode Eq left right) :
    Code.Follows mode Eq (orAbort left) (orAbort right) := by
  intro store base moves admitted
  have ran := same store base moves admitted
  unfold orAbort
  revert ran
  generalize left ⟨store, base, moves⟩ = leftResult
  generalize right store = rightResult
  intro ran
  cases ran with
  | ok values admitted onward => exact .ok values admitted onward
  | error admitted onward => exact .stuck
  | stuck => exact .stuck
  | trapped traps => exact .trapped traps

/-- A read whose value is not used may be added. -/
theorem follows_read {α β : Type} {related : α → β → Prop} {left : Code (Mapped (Db ρ)) α}
    {right : Code (Db ρ) β}
    {γ : Type} {read : Db ρ → γ} (valid : mode.Valid pt)
    (same : Code.Follows mode related left right) :
    Code.Follows mode related (.access pt (.gets read) >>= fun _ => left) right :=
  show Code.Follows mode related _ (.gets read >>= fun _ => right) from
    (Code.Follows.access valid (.gets read)).bind fun _ _ _ => same

/-- Moving the elements into the root follows the model without addresses. -/
theorem arrayMakeSmall_follows (smallCapacity : Nat) (valid : mode.Valid pt) :
    Code.Follows mode (fun pt _ => mode.Valid pt) (arrayMakeSmall api root smallCapacity pt)
      (EverDb.arrayMakeSmall api root smallCapacity) := by
  unfold arrayMakeSmall EverDb.arrayMakeSmall
  refine (pageWriteHostIndex_follows api root 0).bind ?_
  rintro firstPage _ rfl
  refine .here_bind fun firstBlock first => follows_read valid ?_
  refine (Code.Follows.access first _).bind ?_
  rintro data _ rfl
  refine (pageResize_follows api root 0).bind fun _ _ _ => ?_
  exact .here_bind fun pt valid => (Code.Follows.access valid _).hand fun _ => valid

/-- Moving the elements into a first page follows the model without addresses. -/
theorem arrayMakePaged_follows (smallCapacity nblocks : Nat) (valid : mode.Valid pt) :
    Code.Follows mode (fun pt _ => mode.Valid pt) (arrayMakePaged api root smallCapacity nblocks pt)
      (EverDb.arrayMakePaged api root smallCapacity nblocks) := by
  unfold arrayMakePaged EverDb.arrayMakePaged
  refine (Code.Follows.access valid _).bind ?_
  rintro data _ rfl
  refine (Code.Follows.access valid _).bind fun _ _ _ => ?_
  refine (pageResize_follows api root nblocks).bind fun _ _ _ => ?_
  refine .here_bind fun pt valid => (pageWriteHostIndex_follows api root 0).bind ?_
  rintro firstPage _ rfl
  refine .here_bind fun firstBlock first => ?_
  -- the item size and the copy are one access over block numbers
  change Code.Follows mode _ _ (.gets (fun db => ptItemSize db root) >>= fun itemSize =>
    .update fun db =>
      db.write firstPage ((db.data firstPage).blit 0 data 0 (smallCapacity * itemSize)))
  refine (Code.Follows.access valid _).bind ?_
  rintro itemSize _ rfl
  exact (Code.Follows.access first _).hand fun _ => valid

/-- The paged branch of `array_resize` follows the model without addresses. -/
theorem arrayRepage_follows (smallCapacity nblocks : Nat) (valid : mode.Valid pt) :
    Code.Follows mode (fun pt _ => mode.Valid pt) (arrayRepage api root smallCapacity nblocks pt)
      (EverDb.arrayRepage api root smallCapacity nblocks) := by
  unfold arrayRepage EverDb.arrayRepage
  refine (Code.Follows.access valid _).bind ?_
  rintro current _ rfl
  refine .ite (.ret valid) (.ite (arrayMakePaged_follows api root smallCapacity nblocks valid) ?_)
  exact (pageResize_follows api root nblocks).then_here

/-- `array_resize` agrees with the run over block numbers, or an access trapped. -/
theorem arrayResize_follows (capacity : Nat) :
    Code.Follows mode Eq (arrayResize api root capacity)
      (EverDb.arrayResize api root capacity) := by
  unfold arrayResize EverDb.arrayResize
  refine .here_bind fun pt valid => (Code.Follows.access valid _).bind ?_
  rintro currentCapacity _ rfl
  refine .ite (.ret rfl) ?_
  refine (Code.Follows.access valid _).bind ?_
  rintro itemSize _ rfl
  refine (Code.Follows.access valid _).bind ?_
  rintro smallCapacity _ rfl
  refine (Code.Follows.access valid _).bind ?_
  rintro current _ rfl
  refine .ite ?_ ?_
  · refine .ite ?_ (.access valid _)
    exact (arrayMakeSmall_follows api root smallCapacity valid).bind fun pt _ valid =>
      .access valid _
  · refine (Code.Follows.access valid _).bind ?_
    rintro itemsPerBlock _ rfl
    exact (arrayRepage_follows api root smallCapacity _ valid).bind fun pt _ valid =>
      .access valid _

/-- `array_data` answers a pointer to the element that the model finds. -/
theorem arrayData_follows (index : Nat) :
    Code.Follows mode (Element.Reaches mode) (arrayData api root index)
      (EverDb.arrayData api root index) := by
  unfold arrayData EverDb.arrayData
  refine .here_bind fun pt valid => (Code.Follows.access valid _).bind ?_
  rintro length _ rfl
  refine .ite (.ret trivial) ?_
  refine (Code.Follows.access valid _).bind ?_
  rintro nblocks _ rfl
  refine (Code.Follows.access valid _).bind ?_
  rintro itemSize _ rfl
  refine .ite (.ret ⟨valid, rfl⟩) ?_
  refine (Code.Follows.access valid _).bind ?_
  rintro itemsPerBlock _ rfl
  refine (orAbort_follows (pageWriteHostIndex_follows api root _)).bind ?_
  rintro page _ rfl
  refine .here_bind fun block here => (Code.Follows.access valid _).bind ?_
  rintro itemSize _ rfl
  exact .ret ⟨here, rfl⟩

/-- `array_get` follows the model without addresses. -/
theorem arrayGet_follows (index : Nat) :
    Code.Follows mode Eq (arrayGet api root index) (EverDb.arrayGet api root index) := by
  unfold arrayGet EverDb.arrayGet
  refine .here_bind fun pt valid => (arrayData_follows api root index).bind ?_
  rintro (_ | element) (_ | place) reaches
  · exact .fail _
  · exact reaches.elim
  · exact reaches.elim
  · obtain ⟨here, rfl⟩ := reaches
    change Code.Follows mode _ _ (.gets (fun db => ptItemSize db root) >>= fun itemSize =>
      .gets fun db => (db.data element.block).slice element.offset itemSize)
    refine (Code.Follows.access valid _).bind ?_
    rintro itemSize _ rfl
    exact .access here _

/-- `array_set` follows the model without addresses. -/
theorem arraySet_follows (index : Nat) (buffer : Image) :
    Code.Follows mode Eq (arraySet api root index buffer)
      (EverDb.arraySet api root index buffer) := by
  unfold arraySet EverDb.arraySet
  refine .here_bind fun pt valid => (arrayData_follows api root index).bind ?_
  rintro (_ | element) (_ | place) reaches
  · exact .fail _
  · exact reaches.elim
  · exact reaches.elim
  · obtain ⟨here, rfl⟩ := reaches
    change Code.Follows mode _ _ (.gets (fun db => ptItemSize db root) >>= fun itemSize =>
      .update fun db =>
        db.write element.block ((db.data element.block).blit element.offset buffer 0 itemSize))
    refine (Code.Follows.access valid _).bind ?_
    rintro itemSize _ rfl
    exact .access here _

/-- `array_push` follows the model without addresses. -/
theorem arrayPush_follows (buffer : Image) :
    Code.Follows mode Eq (arrayPush api root buffer) (EverDb.arrayPush api root buffer) := by
  unfold arrayPush EverDb.arrayPush
  refine .here_bind fun pt valid => (Code.Follows.access valid _).bind ?_
  rintro length _ rfl
  refine (Code.Follows.access valid _).bind ?_
  rintro capacity _ rfl
  have rest : ∀ {pt : Nat}, mode.Valid pt → Code.Follows mode Eq
      (.access pt (load root lengthWord) >>= fun length =>
        .access pt (store root lengthWord (u32 (length + 1))) >>= fun _ =>
          .access pt (load root lengthWord) >>= fun length =>
            arraySet api root (sub32 length 1) buffer)
      (load root lengthWord >>= fun length => store root lengthWord (u32 (length + 1)) >>= fun _ =>
        load root lengthWord >>= fun length =>
          EverDb.arraySet api root (sub32 length 1) buffer) := by
    intro pt valid
    refine (Code.Follows.access valid _).bind ?_
    rintro length _ rfl
    refine (Code.Follows.access valid _).bind fun _ _ _ => (Code.Follows.access valid _).bind ?_
    rintro length _ rfl
    exact arraySet_follows api root _ buffer
  refine .ite ?_ (rest valid)
  exact (arrayResize_follows api root _).bind fun _ _ _ => .here_bind fun pt valid => rest valid

/-- `array_pop` follows the model without addresses. -/
theorem arrayPop_follows :
    Code.Follows mode Eq (arrayPop api root) (EverDb.arrayPop api root) := by
  unfold arrayPop EverDb.arrayPop
  refine .here_bind fun pt valid => (Code.Follows.access valid _).bind ?_
  rintro length _ rfl
  refine (arrayGet_follows api root _).bind ?_
  rintro element _ rfl
  refine (Code.Follows.access valid _).bind ?_
  rintro length _ rfl
  exact (Code.Follows.access valid _).bind fun _ _ _ => .ret rfl

end EverDb.Pointer
