import EverDb.Page.Model

/-!
# Arrays

`array.c`: fixed-size elements behind one root block. A small array keeps its
elements inside the root; a larger one keeps them in the data blocks of a page
table that shares the root. The array header, `item_size` at byte 4084 and
`length` in word 1022, lies between the table's index entries and `nblocks`.
-/

namespace EverDb

open Foundation

variable {ρ : Type}

/-- `ERR_ARRAY_INDEX_OUT_OF_BOUNDS`. -/
abbrev errArrayIndexOutOfBounds : Int := 3201

/-- The byte of `item_size` in a root. -/
abbrev itemSizeByte : Nat := 4084

/-- The word of `length` in a root. -/
abbrev lengthWord : Nat := 1022

/-- `BLOCK_SIZE - sizeof(array_header) - sizeof(page_header)`. -/
abbrev smallBytes : Nat := 4084

/-- `pt->item_size`. -/
def ptItemSize (db : Db ρ) (root : Nat) : Nat := (db.data root itemSizeByte).toNat

/-- `array_init`. -/
def arrayInit (root itemSize : Nat) : Code (Db ρ) Unit := do
  pageInit root
  .update fun db => db.write root ((db.data root).setByte itemSizeByte (UInt8.ofNat itemSize))

/-- `array_length`. -/
def arrayLength (db : Db ρ) (root : Nat) : Nat := (db.data root).word lengthWord

/-- `array_capacity`. -/
def arrayCapacity (root : Nat) : Code (Db ρ) Nat := do
  let nblocks ← load root nblocksWord
  let itemSize ← .gets fun db => ptItemSize db root
  if nblocks = 0 then divide smallBytes itemSize
  else do
    let itemsPerBlock ← divide blockSize itemSize
    pure (u32 (nblocks * itemsPerBlock))

/-- Cut the length down to a capacity. -/
def truncateLength (root capacity : Nat) : Code (Db ρ) Unit := do
  let length ← load root lengthWord
  if length > capacity then store root lengthWord capacity else pure ()

/-- The branch of `array_resize` that brings the elements back into the root. -/
def arrayMakeSmall (api : BlockApi (Db ρ)) (root smallCapacity : Nat) : Code (Db ρ) Unit := do
  let firstPage ← pageWriteHostIndex api root 0
  -- the copy in `data` is read only up to the bytes the second `memcpy` takes
  let data ← .gets fun db => db.data firstPage
  pageResize api root 0
  .update fun db =>
    db.write root ((db.data root).blit 0 data 0 (smallCapacity * ptItemSize db root))

/-- The branch of `array_resize` that turns a small array into a paged one. -/
def arrayMakePaged (api : BlockApi (Db ρ)) (root smallCapacity nblocks : Nat) :
    Code (Db ρ) Unit := do
  let data ← .gets fun db => db.data root
  .update fun db =>
    db.write root ((db.data root).blit 0 Image.zero 0 (smallCapacity * ptItemSize db root))
  pageResize api root nblocks
  let firstPage ← pageWriteHostIndex api root 0
  .update fun db =>
    db.write firstPage
      ((db.data firstPage).blit 0 data 0 (smallCapacity * ptItemSize db root))

/-- The step of `array_resize` that brings a larger array to `nblocks` data blocks. -/
def arrayRepage (api : BlockApi (Db ρ)) (root smallCapacity nblocks : Nat) : Code (Db ρ) Unit := do
  let current ← load root nblocksWord
  if current = nblocks then pure ()
  else if current = 0 then arrayMakePaged api root smallCapacity nblocks
  else pageResize api root nblocks

/-- `array_resize`. -/
def arrayResize (api : BlockApi (Db ρ)) (root capacity : Nat) : Code (Db ρ) Unit := do
  let currentCapacity ← arrayCapacity root
  if capacity = currentCapacity then pure ()
  else do
    let itemSize ← .gets fun db => ptItemSize db root
    let smallCapacity ← divide smallBytes itemSize
    let current ← load root nblocksWord
    if capacity ≤ smallCapacity then do
      if current ≠ 0 then arrayMakeSmall api root smallCapacity else pure ()
      truncateLength root smallCapacity
    else do
      let itemsPerBlock ← divide blockSize itemSize
      let nblocks := u32 (capacity + itemsPerBlock - 1) / itemsPerBlock
      arrayRepage api root smallCapacity nblocks
      truncateLength root (u32 (nblocks * itemsPerBlock))

/-- A failing page access inside `array_data` calls `abort()`. -/
def orAbort {σ α : Type} (call : Code σ α) : Code σ α := fun state =>
  match call state with
  | .ok value after => .ok value after
  | .error _ _ => .stuck
  | .stuck => .stuck

/-- `array_data`: the block and byte offset of an element, or `NULL`. -/
def arrayData (api : BlockApi (Db ρ)) (root index : Nat) : Code (Db ρ) (Option (Nat × Nat)) := do
  let length ← load root lengthWord
  if index ≥ length then pure none
  else do
    let nblocks ← load root nblocksWord
    let itemSize ← .gets fun db => ptItemSize db root
    if nblocks = 0 then pure (some (root, index * itemSize))
    else do
      let itemsPerBlock ← divide blockSize itemSize
      let page ← orAbort (pageWriteHostIndex api root (index / itemsPerBlock))
      let itemSize ← .gets fun db => ptItemSize db root
      pure (some (page, index % itemsPerBlock * itemSize))

/-- `array_get`: the bytes copied to the caller's buffer. -/
def arrayGet (api : BlockApi (Db ρ)) (root index : Nat) : Code (Db ρ) (List UInt8) := do
  match ← arrayData api root index with
  | none => .fail errArrayIndexOutOfBounds
  | some (block, offset) =>
      .gets fun db => (db.data block).slice offset (ptItemSize db root)

/-- `array_set`: copy `item_size` bytes of the caller's buffer. -/
def arraySet (api : BlockApi (Db ρ)) (root index : Nat) (buffer : Image) : Code (Db ρ) Unit := do
  match ← arrayData api root index with
  | none => .fail errArrayIndexOutOfBounds
  | some (block, offset) =>
      .update fun db =>
        db.write block ((db.data block).blit offset buffer 0 (ptItemSize db root))

/-- `array_push`. -/
def arrayPush (api : BlockApi (Db ρ)) (root : Nat) (buffer : Image) : Code (Db ρ) Unit := do
  let length ← load root lengthWord
  let capacity ← arrayCapacity root
  if u32 (length + 1) > capacity then arrayResize api root (u32 (length + 1)) else pure ()
  let length ← load root lengthWord
  store root lengthWord (u32 (length + 1))
  let length ← load root lengthWord
  arraySet api root (sub32 length 1) buffer

/-- `array_pop`. -/
def arrayPop (api : BlockApi (Db ρ)) (root : Nat) : Code (Db ρ) (List UInt8) := do
  let length ← load root lengthWord
  let element ← arrayGet api root (sub32 length 1)
  let length ← load root lengthWord
  store root lengthWord (sub32 length 1)
  pure element

end EverDb
