import EverDb.Io.Model

/-!
# The freelist, transactions and the object list

`freelist.c`, `txn.c` and the block and object functions of `edb.c`. They call
one another through the array that stores the freelist: allocating a block may
resize that array, which allocates. `edbApi` ties the knot, to a depth of calls;
a call that has no result at any depth recurses for ever.
-/

namespace EverDb

open Foundation

/-- `EDB_ERR_TXN_NO_TRANSACTION`. -/
abbrev edbErrTxnNoTransaction : Int := 2001

/-- `EDB_ERR_TXN_INVALID_BLOCK`. -/
abbrev edbErrTxnInvalidBlock : Int := 2003

/-- `EDB_ERR_TXN_NOT_IMPLEMENTED`. -/
abbrev edbErrTxnNotImplemented : Int := 2099

/-- `EDB_ERROR_READ_ONLY`. -/
abbrev edbErrorReadOnly : Int := 1004

/-- `ALLOCATED`, the table state of a block allocated in the transaction. -/
abbrev allocated : Nat := 0xffffff01

/-- `FREED`, the table state of an older block freed in the transaction. -/
abbrev freed : Nat := 0xffffff02

/-- `next_power_of_two`. -/
def nextPowerOfTwo (x : Nat) : Nat :=
  let x := x ||| (x >>> 1)
  let x := x ||| (x >>> 2)
  let x := x ||| (x >>> 4)
  let x := x ||| (x >>> 8)
  let x := x ||| (x >>> 16)
  u32 (x + 1)

/-- The number of blocks `freelist_allocate_block` asks `io_resize` for:
`(nblocks + step) & ~(step - 1)`. -/
def grownBlocks (nblocks : Nat) : Nat :=
  let step := nextPowerOfTwo (nblocks >>> 3)
  u32 (nblocks + step) &&& (4294967296 - 1 - sub32 step 1)

/-- Set a field of the control record. -/
def setCtl (change : Edb → Edb) : Code EdbDb Unit := .update (Db.withCtl · change)

/-- Set a key in the current transaction's block table. -/
def txnSet (block state : Nat) : Code EdbDb Unit := fun db =>
  match db.ctl.txn with
  | [] => .stuck
  | ts :: older =>
      (Code.ofOption (memHashSet ts.blocks block state) >>= fun blocks =>
        setCtl fun ctl => { ctl with txn := { ts with blocks := blocks } :: older }) db

/-- Look a block up in the current transaction's block table. -/
def txnGet (block : Nat) : Code EdbDb Nat := fun db =>
  match db.ctl.txn with
  | [] => .stuck
  | ts :: _ => Code.ofOption (memHashGet ts.blocks block) db

/-- `CHECK_CODE(db->txn != NULL, EDB_ERR_TXN_NO_TRANSACTION)`. -/
def requireTxn : Code EdbDb Unit := do
  let txn ← .gets fun db => db.ctl.txn
  if txn.isEmpty then .fail edbErrTxnNoTransaction else pure ()

/-- `freelist_allocate_block`: `io_resize` adds blocks, the first of which is
returned and the rest pushed, when the freelist is empty. -/
def freelistAllocateBlock (api : BlockApi EdbDb) : Code EdbDb Nat := do
  let freelist ← .gets fun db => db.ctl.freelist
  let freelist ← api.modify freelist
  setCtl fun ctl => { ctl with freelist := freelist }
  let length ← .gets fun db => arrayLength db db.ctl.freelist
  if length > 0 then do
    let freelist ← .gets fun db => db.ctl.freelist
    let element ← arrayPop api freelist
    pure ((Image.ofList element).word 0)
  else do
    let nblocks ← .gets fun db => db.ctl.nblocks
    ioResize (grownBlocks nblocks)
    Code.forLoop (fun i db => i < db.ctl.nblocks)
      (fun i => do
        let freelist ← .gets fun db => db.ctl.freelist
        arrayPush api freelist (Image.ofWord i))
      4294967296 (nblocks + 1)
    pure nblocks

/-- `freelist_free_block`. The code of the refusal is the block number, so block
zero is dropped with the return code of success. -/
def freelistFreeBlock (api : BlockApi EdbDb) (block : Nat) : Code EdbDb Unit := do
  if block < edbUserData then .exitWith block
  else do
    let freelist ← .gets fun db => db.ctl.freelist
    let freelist ← api.modify freelist
    setCtl fun ctl => { ctl with freelist := freelist }
    let freelist ← .gets fun db => db.ctl.freelist
    arrayPush api freelist (Image.ofWord block)

/-- `txn_allocate_block`. -/
def txnAllocateBlock (api : BlockApi EdbDb) : Code EdbDb Nat := do
  requireTxn
  let newBlock ← freelistAllocateBlock api
  txnSet newBlock allocated
  pure newBlock

/-- `txn_free_block`. -/
def txnFreeBlock (api : BlockApi EdbDb) (block : Nat) : Code EdbDb Unit := do
  requireTxn
  let blockState ← txnGet block
  if blockState = allocated then do
    txnSet block 0
    (freelistFreeBlock api block).ignore
  else if blockState = freed then .fail edbErrTxnInvalidBlock
  else if blockState ≠ 0 then do
    txnSet block 0
    txnSet blockState freed
    (freelistFreeBlock api block).ignore
  else txnSet block freed

/-- `txn_modify_block`. -/
def txnModifyBlock (api : BlockApi EdbDb) (block : Nat) : Code EdbDb Nat := do
  requireTxn
  let blockState ← txnGet block
  if blockState = allocated then pure block
  else if blockState = freed then .fail (-1)
  else if blockState ≠ 0 then pure block
  else do
    -- copy on write
    let newBlock ← freelistAllocateBlock api
    copyMapped newBlock block
    txnSet newBlock block
    pure newBlock

/-- The block functions with calls nested at most `depth` deep. -/
def edbApi : Nat → BlockApi EdbDb
  | 0 => { allocate := .diverge, modify := fun _ => .diverge, free := fun _ => .diverge }
  | depth + 1 =>
    { allocate := txnAllocateBlock (edbApi depth)
      modify := txnModifyBlock (edbApi depth)
      free := txnFreeBlock (edbApi depth) }

/-- `txn_begin_master`. -/
def txnBeginMaster : Code EdbDb Unit := do
  let freelist ← .gets fun db => db.ctl.freelist
  let objlist ← .gets fun db => db.ctl.objlist
  if freelist ≠ edbFreelistPrimary then .fail 3111
  else if objlist ≠ edbObjlist then .fail 3112
  else do
    copyMapped edbFreelistSecondary edbFreelistPrimary
    txnSet edbFreelistSecondary edbFreelistPrimary
    setCtl fun ctl => { ctl with freelist := edbFreelistSecondary }

/-- `txn_begin`. -/
def txnBegin (api : BlockApi EdbDb) : Code EdbDb Unit := do
  let next ← .gets fun db => db.ctl.txn
  if next.isEmpty then do
    setCtl fun ctl => { ctl with txn := [⟨ctl.nblocks, memHashNew⟩] }
    txnBeginMaster
    setCtl fun ctl => { ctl with txnId := u32 (ctl.txnId + 1) }
  else do
    let freelist ← .gets fun db => db.ctl.freelist
    -- the return code of `txn_modify_block` is dropped
    (do let freelist ← api.modify freelist
        setCtl fun ctl => { ctl with freelist := freelist }).ignore
    .fail edbErrTxnNotImplemented

/-- The body of the loop of `txn_commit_master`, for one slot. -/
def commitSlot (api : BlockApi EdbDb) (e : MemHashItem) : Code EdbDb Unit := do
  let objlist ← .gets fun db => db.ctl.objlist
  if e.k = 0 then pure ()
  else if e.k = edbFreelistSecondary then pure ()
  else if e.k = objlist then do
    copyMapped edbObjlist objlist
    freelistFreeBlock api e.k
    setCtl fun ctl => { ctl with objlist := edbObjlist }
  else if e.v = allocated then pure ()
  else if e.v = freed then freelistFreeBlock api e.k
  else freelistFreeBlock api e.v

/-- The block table of the current transaction. -/
def currentBlocks (db : EdbDb) : MemHash := (db.ctl.txn.head?.map TxnState.blocks).getD memHashNew

/-- `txn_commit_master`. The loop reads the table's capacity and slots anew in
every round. -/
def txnCommitMaster (api : BlockApi EdbDb) : Code EdbDb Unit := do
  requireTxn
  let txn ← .gets fun db => db.ctl.txn
  if txn.length ≠ 1 then .fail (-3)
  else do
    let root ← txnGet edbFreelistSecondary
    if root ≠ edbFreelistPrimary then .fail (-4)
    else do
      Code.forLoop (fun i db => i < (currentBlocks db).capacity)
        (fun i => do
          let e ← .gets fun db => (currentBlocks db).entries i
          commitSlot api e)
        4294967296 0
      let freelist ← .gets fun db => db.ctl.freelist
      copyMapped edbFreelistPrimary freelist
      setCtl fun ctl =>
        { ctl with freelist := edbFreelistPrimary, txn := [], txnId := u32 (ctl.txnId + 1) }

/-- `txn_abort_master`. -/
def txnAbortMaster : Code EdbDb Unit := do
  setCtl fun ctl => { ctl with freelist := edbFreelistPrimary, objlist := edbObjlist }
  let nblocks ← .gets fun db => (db.ctl.txn.head?.map TxnState.nblocks).getD 0
  ioResize nblocks
  setCtl fun ctl => { ctl with txn := [], txnId := u32 (ctl.txnId + 1) }

/-- Set a key in the block table of the parent of the current transaction. -/
def parentSet (block state : Nat) : Code EdbDb Unit := fun db =>
  match db.ctl.txn with
  | ts :: parent :: older =>
      (Code.ofOption (memHashSet parent.blocks block state) >>= fun blocks =>
        setCtl fun ctl => { ctl with txn := ts :: { parent with blocks := blocks } :: older }) db
  | _ => .stuck

/-- Look a block up in the block table of the parent. -/
def parentGet (block : Nat) : Code EdbDb Nat := fun db =>
  match db.ctl.txn with
  | _ :: parent :: _ => Code.ofOption (memHashGet parent.blocks block) db
  | _ => .stuck

/-- The body of the loop of `txn_commit` that merges one slot into the parent. -/
def mergeSlot (api : BlockApi EdbDb) (e : MemHashItem) : Code EdbDb Unit := do
  if e.k = 0 then pure ()
  else if e.v = allocated then parentSet e.k allocated
  else if e.v = freed then do
    let oldBlockState ← parentGet e.k
    if oldBlockState = allocated then do
      parentSet e.k 0
      (freelistFreeBlock api e.k).ignore
    else if oldBlockState = freed then .fail (-902)
    else if oldBlockState ≠ 0 then do
      parentSet e.k 0
      parentSet oldBlockState freed
    else parentSet e.k freed
  else do
    let oldBlockState ← parentGet e.v
    if oldBlockState = allocated then (freelistFreeBlock api e.v).ignore
    else if oldBlockState = freed then .fail (-903)
    else if oldBlockState ≠ 0 then do
      (freelistFreeBlock api e.v).ignore
      parentSet e.k oldBlockState
    else parentSet e.k e.v

/-- `txn_commit`. -/
def txnCommit (api : BlockApi EdbDb) : Code EdbDb Unit := do
  requireTxn
  let txn ← .gets fun db => db.ctl.txn
  if txn.length = 1 then txnCommitMaster api
  else do
    Code.forLoop (fun i db => i < (currentBlocks db).capacity)
      (fun i => do
        let e ← .gets fun db => (currentBlocks db).entries i
        mergeSlot api e)
      4294967296 0
    setCtl fun ctl => { ctl with txn := ctl.txn.tail, txnId := u32 (ctl.txnId + 1) }

/-- The body of the loop of `txn_abort` that takes back one slot. -/
def undoSlot (api : BlockApi EdbDb) (e : MemHashItem) : Code EdbDb Unit :=
  if e.k = 0 then pure ()
  else if e.v = freed then pure ()
  else freelistFreeBlock api e.k

/-- `txn_abort`. -/
def txnAbort (api : BlockApi EdbDb) : Code EdbDb Unit := do
  requireTxn
  let txn ← .gets fun db => db.ctl.txn
  if txn.length = 1 then txnAbortMaster
  else do
    let ts ← .gets fun db => (db.ctl.txn.head?.map TxnState.nblocks).getD 0
    let blocks ← .gets currentBlocks
    setCtl fun ctl => { ctl with txn := ctl.txn.tail }
    ioResize ts
    Code.forLoop (fun i _ => i < blocks.capacity) (fun i => undoSlot api (blocks.entries i))
      4294967296 0
    setCtl fun ctl => { ctl with txnId := u32 (ctl.txnId + 1) }

end EverDb
