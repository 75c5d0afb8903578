import EverDb.Txn.Model

/-!
# The public interface

`edb.c` above the block layer: transactions, block functions and object
handles. `depth` bounds the nesting of block calls, see `edbApi`. A handle is
addressed by its position among the handles allocated so far.
-/

namespace EverDb

open Foundation

/-- `h->txn_id = -1`. -/
abbrev invalidTxnId : Nat := 0xffffffff

/-- `CHECK_CODE(db->readonly == 0, EDB_ERROR_READ_ONLY)`. -/
def requireWritable : Code EdbDb Unit := do
  let readonly ← .gets fun db => db.ctl.readonly
  if readonly then .fail edbErrorReadOnly else pure ()

/-- `edb_init`, after `edb_open` has set the roots. -/
def edbInit : Code EdbDb Unit := do
  ioResize edbUserData
  let freelist ← .gets fun db => db.ctl.freelist
  arrayInit freelist 4
  let objlist ← .gets fun db => db.ctl.objlist
  arrayInit objlist 4

/-- `edb_open` with `overwrite` on an empty file: `io_open` maps one block, then
the roots are set and `edb_init` runs. -/
def edbOpenNew : Code EdbDb Unit := do
  ioResize 1
  setCtl fun ctl => { ctl with freelist := edbFreelistPrimary, objlist := edbObjlist }
  edbInit

/-- `edb_txn_begin`. -/
def edbTxnBegin (depth : Nat) : Code EdbDb Unit := do
  requireWritable
  txnBegin (edbApi depth)

/-- `edb_txn_commit`. -/
def edbTxnCommit (depth : Nat) : Code EdbDb Unit := do
  requireWritable
  txnCommit (edbApi depth)

/-- `edb_txn_abort`. -/
def edbTxnAbort (depth : Nat) : Code EdbDb Unit := do
  requireWritable
  txnAbort (edbApi depth)

/-- `edb_allocate_block`. -/
def edbAllocateBlock (depth : Nat) : Code EdbDb Nat := (edbApi depth).allocate

/-- `edb_modify_block`. -/
def edbModifyBlock (depth block : Nat) : Code EdbDb Nat := (edbApi depth).modify block

/-- `edb_free_block`. -/
def edbFreeBlock (depth block : Nat) : Code EdbDb Unit := (edbApi depth).free block

/-- Read a handle; there is no result for a pointer that is not a handle. -/
def handleAt (h : Nat) : Code EdbDb ObjHandle := fun db =>
  Code.ofOption db.ctl.handles[h]? db

/-- Write a handle. -/
def setHandle (h : Nat) (handle : ObjHandle) : Code EdbDb Unit :=
  setCtl fun ctl => { ctl with handles := ctl.handles.set h handle }

/-- `calloc` a handle and fill it in. -/
def newHandle (handle : ObjHandle) : Code EdbDb Nat := do
  let h ← .gets fun db => db.ctl.handles.length
  setCtl fun ctl => { ctl with handles := ctl.handles ++ [handle] }
  pure h

/-- The refresh that `obj_read` and `obj_write` share: take the root from the
object list when the handle was last used in another transaction. -/
def objRefresh (api : BlockApi EdbDb) (h : Nat) : Code EdbDb ObjHandle := do
  let handle ← handleAt h
  let txnId ← .gets fun db => db.ctl.txnId
  if txnId ≠ handle.txnId then do
    let objlist ← .gets fun db => db.ctl.objlist
    let element ← arrayGet api objlist handle.objId
    let txnId ← .gets fun db => db.ctl.txnId
    let handle := { handle with root := (Image.ofList element).word 0, txnId := txnId }
    setHandle h handle
    pure handle
  else pure handle

/-- `obj_read`. -/
def objRead (api : BlockApi EdbDb) (h : Nat) : Code EdbDb Nat := do
  let handle ← objRefresh api h
  pure handle.root

/-- `obj_write`. -/
def objWrite (api : BlockApi EdbDb) (h : Nat) : Code EdbDb Nat := do
  let handle ← objRefresh api h
  let root ← api.modify handle.root
  setHandle h { handle with root := root }
  pure root

/-- The error exit of `obj_create` once the root is allocated; `abort()` when
the block cannot be freed. -/
def objCreateFail (api : BlockApi EdbDb) (root : Nat) (code : Int) : Code EdbDb Unit := do
  if root ≠ 0 then orAbort (api.free root) else pure ()
  .fail code

/-- `obj_create`: the handle's index and its root. -/
def objCreate (api : BlockApi EdbDb) : Code EdbDb (Nat × Nat) := do
  let objlist ← .gets fun db => db.ctl.objlist
  let objlist ← api.modify objlist
  setCtl fun ctl => { ctl with objlist := objlist }
  let txnId ← .gets fun db => db.ctl.txnId
  let objId ← .gets fun db => arrayLength db db.ctl.objlist
  let root ← api.allocate
  let objlist ← .gets fun db => db.ctl.objlist
  (arrayPush api objlist (Image.ofWord root)).onError (objCreateFail api root)
  let h ← newHandle ⟨objId, txnId, root⟩
  pure (h, root)

/-- `edb_array_create`. -/
def edbArrayCreate (depth itemSize : Nat) : Code EdbDb Nat := do
  let (h, root) ← objCreate (edbApi depth)
  arrayInit root itemSize
  pure h

/-- `edb_array_open`. -/
def edbArrayOpen (objId : Nat) : Code EdbDb Nat := newHandle ⟨objId, invalidTxnId, 0⟩

/-- `edb_array_get`. -/
def edbArrayGet (depth h index : Nat) : Code EdbDb (List UInt8) := do
  let root ← objRead (edbApi depth) h
  arrayGet (edbApi depth) root index

/-- `edb_array_set`. It calls `array_get`, so the caller's buffer is written. -/
def edbArraySet (depth h index : Nat) : Code EdbDb (List UInt8) := do
  let root ← objWrite (edbApi depth) h
  arrayGet (edbApi depth) root index

/-- `edb_array_push`. -/
def edbArrayPush (depth h : Nat) (buffer : Image) : Code EdbDb Unit := do
  let root ← objWrite (edbApi depth) h
  arrayPush (edbApi depth) root buffer

/-- `edb_array_pop`. -/
def edbArrayPop (depth h : Nat) : Code EdbDb (List UInt8) := do
  let root ← objWrite (edbApi depth) h
  arrayPop (edbApi depth) root

/-- `edb_array_length`. -/
def edbArrayLength (depth h : Nat) : Code EdbDb Nat := do
  let root ← objRead (edbApi depth) h
  .gets fun db => arrayLength db root

/-- `edb_array_capacity`. -/
def edbArrayCapacity (depth h : Nat) : Code EdbDb Nat := do
  let root ← objRead (edbApi depth) h
  arrayCapacity root

end EverDb
