import EverDb.Array.Model
import EverDb.MemHash.Model

/-!
# The database control record and the file

`Edb` holds the fields of `edb_t` other than the mapped bytes, the heap of
object handles, and the operating system as `io.c` sees it on Linux: the answer
to each call, by its position among all calls made, and the calls made so far.
-/

namespace EverDb

open Foundation

/-- `EDB_ERR_IO_SIZE_MAX`. -/
abbrev edbErrIoSizeMax : Int := 2003

/-- The operating system calls of `io_resize` and `io_map_close`. -/
inductive OsCall where
  | posixFallocate (length : Nat)
  | ftruncate (length : Nat)
  | mmap (length : Nat)
  | munmap (length : Nat)
deriving DecidableEq, Repr

/-- The answers of the operating system, by the position of a call among all
calls, and the calls it has received. -/
structure Os where
  answer : Nat → OsCall → Int
  calls : List OsCall

/-- `txn_state`, without `next`: the stack of transactions is a list. -/
structure TxnState where
  nblocks : Nat
  blocks : MemHash

/-- `obj_handle`, without `db`. -/
structure ObjHandle where
  objId : Nat
  txnId : Nat
  root : Nat
deriving DecidableEq, Repr

/-- `edb_t`, without `data`. `mapped` tells whether `data` is a mapping, `protWrite` whether
the mapping was made with `PROT_WRITE`, and `handles` holds what `calloc` returned for
object handles, in order. -/
structure Edb where
  readonly : Bool
  mapped : Bool
  protWrite : Bool
  filesize : Nat
  nblocks : Nat
  freelist : Nat
  objlist : Nat
  txnId : Nat
  txn : List TxnState
  handles : List ObjHandle
  os : Os

/-- A control record as `io_open` clears it, before the file is mapped. -/
def closedEdb (os : Os) : Edb :=
  { readonly := false, mapped := false, protWrite := false, filesize := 0, nblocks := 0
    freelist := 0, objlist := 0, txnId := 0, txn := [], handles := [], os := os }

/-- The database: its blocks and its control record. -/
abbrev EdbDb := Db Edb

namespace Db

/-- Change the control record. -/
def withCtl (db : EdbDb) (change : Edb → Edb) : EdbDb := { db with ctl := change db.ctl }

/-- Bytes at or beyond an end of file read as zero once the file grows again. A
file ends between two blocks. -/
def clip (db : EdbDb) (length : Nat) : EdbDb :=
  { db with data := fun block =>
      if block * blockSize < length then db.data block else Image.zero }

end Db

/-- Make a system call and take its answer. -/
def osCall (call : OsCall) : Code EdbDb Int := fun db =>
  .ok (db.ctl.os.answer db.ctl.os.calls.length call)
    (db.withCtl fun ctl => { ctl with os := { ctl.os with calls := ctl.os.calls ++ [call] } })

@[simp] theorem osCall_bind {α : Type} (call : OsCall) (next : Int → Code EdbDb α) (db : EdbDb) :
    (osCall call >>= next) db =
      next (db.ctl.os.answer db.ctl.os.calls.length call)
        (db.withCtl fun ctl =>
          { ctl with os := { ctl.os with calls := ctl.os.calls ++ [call] } }) :=
  rfl

/-- `io_map_close`. -/
def ioMapClose : Code EdbDb Unit := do
  let mapped ← .gets fun db => db.ctl.mapped
  if mapped then do
    let filesize ← .gets fun db => db.ctl.filesize
    let _ ← osCall (.munmap filesize)
    .update (Db.withCtl · fun ctl => { ctl with mapped := false })
  else pure ()

/-- The error exit of `io_resize`. -/
def ioResizeFail (code : Int) : Code EdbDb Unit := do
  ioMapClose
  .update (Db.withCtl · fun ctl => { ctl with filesize := 0, nblocks := 0 })
  .fail code

/-- The end of `io_resize`: map the file, for writing unless `readonly` is set, and record its
size. -/
def ioMap (filesize nblocks : Nat) : Code EdbDb Unit := do
  let address ← osCall (.mmap filesize)
  if address = -1 then ioResizeFail (-9)
  else .update (Db.withCtl · fun ctl =>
    { ctl with
      mapped := true
      protWrite := !ctl.readonly
      filesize := filesize
      nblocks := nblocks })

/-- The step of `io_resize` that lengthens or shortens the file. -/
def ioSetLength (filesize : Nat) : Code EdbDb Int := do
  let current ← .gets fun db => db.ctl.filesize
  if current < filesize then do
    let answer ← osCall (.posixFallocate filesize)
    if answer ≠ 0 then pure (-11)
    else do
      .update (Db.clip · current)
      pure 0
  else if current > filesize then do
    let answer ← osCall (.ftruncate filesize)
    if answer < 0 then pure (-12)
    else do
      .update (Db.clip · filesize)
      pure 0
  else pure 0

/-- A `memcpy` of a block into the mapping. Without `PROT_WRITE` the store raises `SIGSEGV`, and
the call has no result. -/
def copyMapped (target source : Nat) : Code EdbDb Unit := do
  let protWrite ← .gets fun db => db.ctl.protWrite
  if protWrite then copyBlock target source else .diverge

theorem copyMapped_run {db : EdbDb} (protWrite : db.ctl.protWrite = true) (target source : Nat) :
    copyMapped target source db = .ok () (db.write target (db.data source)) := by
  unfold copyMapped
  rw [Code.gets_bind, protWrite]
  rfl

theorem copyMapped_stuck {db : EdbDb} (protWrite : db.ctl.protWrite = false) (target source : Nat) :
    copyMapped target source db = .stuck := by
  unfold copyMapped
  rw [Code.gets_bind, protWrite]
  rfl

theorem copyMapped_ok {db after : EdbDb} {target source : Nat} {value : Unit}
    (ran : copyMapped target source db = .ok value after) :
    after = db.write target (db.data source) := by
  unfold copyMapped at ran
  rw [Code.gets_bind] at ran
  split at ran
  · cases ran
    rfl
  · cases ran

/-- `io_resize`. The file size is a 32-bit shift of `nblocks`, stored in 64 bits. -/
def ioResize (nblocks : Nat) : Code EdbDb Unit := do
  if nblocks ≥ 0xffffff00 then .fail edbErrIoSizeMax
  else do
    let filesize := u32 (nblocks <<< blockBits)
    ioMapClose
    let code ← ioSetLength filesize
    if code ≠ 0 then ioResizeFail code else ioMap filesize nblocks

end EverDb
