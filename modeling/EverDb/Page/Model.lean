import EverDb.Core

/-!
# Page tables

`page.c`: a root block that maps relative indexes to host blocks, the first 512
directly and the rest through index blocks of 1024 entries each. The root's
words are `data_blocks` at 0, `index_blocks` at 512 and `nblocks` at 1023.
-/

namespace EverDb

open Foundation

variable {ρ : Type}

/-- `INDEX_BITS`. -/
abbrev indexBits : Nat := 10

/-- `INDEX_SIZE`. -/
abbrev indexSize : Nat := 1024

/-- `LEVEL_ONE`. -/
abbrev levelOne : Nat := 512

/-- `EDB_ERR_PAGE_OUT_OF_BOUNDS`. -/
abbrev edbErrPageOutOfBounds : Int := 3101

/-- `INDEX0`. -/
def index0 (index : Nat) : Nat := sub32 index levelOne >>> indexBits

/-- `INDEX1`. -/
def index1 (index : Nat) : Nat := sub32 index levelOne % indexSize

/-- The word of `index_blocks[place]` in a root. -/
def indexWord (place : Nat) : Nat := levelOne + place

/-- The word of `nblocks` in a root. -/
abbrev nblocksWord : Nat := 1023

/-- `pt->nblocks`. -/
def ptNblocks (db : Db ρ) (root : Nat) : Nat := (db.data root).word nblocksWord

/-- `page_read_host_index`: the return code and `*block`. -/
def pageReadHostIndex (db : Db ρ) (root index : Nat) : Int × Nat :=
  if index ≥ ptNblocks db root then (edbErrPageOutOfBounds, 4294967296 - 1)
  else if ptNblocks db root = 0 then (0, root)
  else if index < levelOne then (0, (db.data root).word index)
  else
    let indexBlock := (db.data root).word (indexWord (index0 index))
    (0, (db.data indexBlock).word (index1 index))

/-- `page_write_host_index`. On an error `*block` is `-1`, which no caller reads. -/
def pageWriteHostIndex (api : BlockApi (Db ρ)) (root index : Nat) : Code (Db ρ) Nat := do
  let nblocks ← load root nblocksWord
  if index ≥ nblocks then .fail edbErrPageOutOfBounds
  else if nblocks = 0 then api.modify root
  else if index < levelOne then do
    let root ← api.modify root
    let block ← load root index
    api.modify block
  else do
    let root ← api.modify root
    let indexBlock ← load root (indexWord (index0 index))
    let indexBlock ← api.modify indexBlock
    let block ← load indexBlock (index1 index)
    api.modify block

/-- `page_init`. -/
def pageInit (root : Nat) : Code (Db ρ) Unit := .update fun db => db.write root Image.zero

/-- One round of the loop that grows `data_blocks`. -/
def growDataBlocks (api : BlockApi (Db ρ)) (root : Nat) : Code (Db ρ) Unit := do
  let newBlock ← api.allocate
  let nblocks ← load root nblocksWord
  store root nblocksWord (u32 (nblocks + 1))
  store root nblocks newBlock

/-- The index block for the next entry: a new one where the root has none. -/
def openIndexBlock (api : BlockApi (Db ρ)) (indexBlock : Nat) : Code (Db ρ) Nat :=
  if indexBlock = 0 then api.allocate else api.modify indexBlock

/-- The index block once an entry is cleared: none when it was the first one. -/
def closeIndexBlock (api : BlockApi (Db ρ)) (indexBlock dataIndex : Nat) : Code (Db ρ) Nat :=
  if dataIndex = 0 then do
    api.free indexBlock
    pure 0
  else api.modify indexBlock

/-- One round of the loop that grows `index_blocks`. -/
def growIndexBlocks (api : BlockApi (Db ρ)) (root : Nat) : Code (Db ρ) Unit := do
  let nblocks ← load root nblocksWord
  let indexIndex := index0 nblocks
  let dataIndex := index1 nblocks
  let indexBlock ← load root (indexWord indexIndex)
  let indexBlock ← openIndexBlock api indexBlock
  store root (indexWord indexIndex) indexBlock
  let newBlock ← api.allocate
  store indexBlock dataIndex newBlock
  let nblocks ← load root nblocksWord
  store root nblocksWord (u32 (nblocks + 1))

/-- One round of the loop that shrinks `index_blocks`. -/
def shrinkIndexBlocks (api : BlockApi (Db ρ)) (root : Nat) : Code (Db ρ) Unit := do
  let nblocks ← load root nblocksWord
  let indexIndex := index0 (sub32 nblocks 1)
  let dataIndex := index1 (sub32 nblocks 1)
  let indexBlock ← load root (indexWord indexIndex)
  let dataBlock ← load indexBlock dataIndex
  api.free dataBlock
  -- the entry is cleared before the index block is made writable
  store indexBlock dataIndex 0
  let nblocks ← load root nblocksWord
  let indexBlock ← closeIndexBlock api indexBlock (index1 (sub32 nblocks 1))
  store root (indexWord indexIndex) indexBlock
  let nblocks ← load root nblocksWord
  store root nblocksWord (sub32 nblocks 1)

/-- One round of the loop that shrinks `data_blocks`. -/
def shrinkDataBlocks (api : BlockApi (Db ρ)) (root : Nat) : Code (Db ρ) Unit := do
  let nblocks ← load root nblocksWord
  let dataBlock ← load root (sub32 nblocks 1)
  api.free dataBlock
  let nblocks ← load root nblocksWord
  store root nblocksWord (sub32 nblocks 1)
  store root (sub32 nblocks 1) 0

/-- `page_resize`. -/
def pageResize (api : BlockApi (Db ρ)) (root nblocks : Nat) : Code (Db ρ) Unit := do
  let root ← api.modify root
  Code.whileLoop (fun db => ptNblocks db root < nblocks && ptNblocks db root < levelOne)
    (growDataBlocks api root) 4294967296
  Code.whileLoop (fun db => ptNblocks db root < nblocks)
    (growIndexBlocks api root) 4294967296
  Code.whileLoop (fun db => ptNblocks db root > nblocks && ptNblocks db root > levelOne)
    (shrinkIndexBlocks api root) 4294967296
  Code.whileLoop (fun db => ptNblocks db root > nblocks)
    (shrinkDataBlocks api root) 4294967296

end EverDb
