import EverDb.Array.Inline
import EverDb.Edb.Open
import Mathlib.Data.List.Perm.Basic

/-!
# File descriptors

`edb_open` and `edb_close` with the descriptor of the file: the field `h_file`,
what `open` returned and what `close` was given. `edb_open` closes the file when
`io_open` fails, and `io_open` has closed it by then and left zero in `h_file`.
A program balances its calls when no `edb_open` fails inside `io_open`, and in no
other run.
-/

namespace EverDb

open Foundation

/-- A descriptor that `open` returned, or that `close` was given. -/
inductive FileCall where
  | opened (descriptor : Int)
  | closed (descriptor : Int)
deriving DecidableEq, Repr

/-- `edb_t` with `h_file`, and the descriptors the program has opened and closed. -/
structure FileDb where
  db : EdbDb
  hFile : Int
  log : List FileCall

/-- A call that reads and writes no descriptor. -/
def onDb {α : Type} (call : Code EdbDb α) : Code FileDb α := fun file =>
  match call file.db with
  | .ok value after => .ok value { file with db := after }
  | .error code after => .error code { file with db := after }
  | .stuck => .stuck

/-- `db->h_file = open(...)`. -/
def openDescriptor (descriptor : Int) : Code FileDb Unit :=
  .update fun file =>
    { file with
      hFile := descriptor
      log := if 0 ≤ descriptor then file.log ++ [.opened descriptor] else file.log }

/-- `if (db->h_file >= 0) { close(db->h_file); db->h_file = 0; }` -/
def closeDescriptor : Code FileDb Unit :=
  .update fun file =>
    if 0 ≤ file.hFile then { file with hFile := 0, log := file.log ++ [.closed file.hFile] }
      else file

/-- `io_close`. -/
def ioCloseFile : Code FileDb Unit := do
  onDb ioMapClose
  closeDescriptor
  onDb (setCtl fun ctl => { ctl with filesize := 0, nblocks := 0 })

/-- `memset(db, 0, sizeof(edb))`. -/
def clearFile : Code FileDb Unit := do
  onDb clearEdb
  .update fun file => { file with hFile := 0 }

/-- The error exit of `io_open`. -/
def ioOpenFileFail (code : Int) : Code FileDb Unit := do
  ioCloseFile
  clearFile
  .fail code

/-- The end of `io_open`, once the size of the file is known. -/
def ioOpenFileSized : Code FileDb Unit := do
  let filesize ← .gets fun file => file.db.ctl.filesize
  if filesize &&& blockMask ≠ 0 then ioOpenFileFail (-5)
  else do
    let nblocks := u32 (filesize >>> blockBits)
    (onDb (ioResize (if nblocks = 0 then 1 else nblocks))).onError ioOpenFileFail

/-- `io_open`. -/
def ioOpenFile (file : FileAnswer) (readonly overwrite : Bool) : Code FileDb Unit := do
  clearFile
  .update fun file => { file with hFile := -1 }
  if readonly && overwrite then ioOpenFileFail (-4)
  else do
    onDb (setCtl fun ctl => { ctl with readonly := readonly })
    openDescriptor file.descriptor
    if file.descriptor < 0 then ioOpenFileFail edbErrIoFileOpen
    else do
      onDb (truncateFile overwrite)
      if file.fstat < 0 then ioOpenFileFail edbErrIoFileSize
      else do
        onDb (setCtl fun ctl => { ctl with filesize := file.size })
        ioOpenFileSized

/-- The error exit of `edb_open`. -/
def edbOpenFileFail (code : Int) : Code FileDb Unit := do
  ioCloseFile
  .fail code

/-- `edb_open`. -/
def edbOpenFile (file : FileAnswer) (readonly overwrite : Bool) : Code FileDb Unit :=
  (ioOpenFile file readonly overwrite >>= fun _ => onDb (edbOpenMapped readonly overwrite)).onError
    edbOpenFileFail

/-- `edb_close`. -/
def edbCloseFile : Code FileDb Unit := do
  let txn ← .gets fun file => file.db.ctl.txn.isEmpty
  if txn then ioCloseFile else .fail edbErrorOpenTxn

/-- One call of a program: `edb_open`, with what the operating system answers and
the bytes it maps, or `edb_close` on one of the databases it holds. -/
inductive FileStep where
  | openFile (file : FileAnswer) (readonly overwrite : Bool) (bytes : Nat → Image) (os : Os)
  | closeFile (h : Nat)

/-- The databases a program holds, and the descriptors it has opened and closed. -/
structure Process where
  held : List (EdbDb × Int)
  log : List FileCall

namespace Process

/-- A program before its first call. -/
def start : Process := ⟨[], []⟩

/-- The program after an `edb_open`: a database that could not be opened is freed. -/
def afterOpen (process : Process) : Outcome FileDb Unit → Option Process
  | .ok _ after => some ⟨process.held ++ [(after.db, after.hFile)], after.log⟩
  | .error _ after => some ⟨process.held, after.log⟩
  | .stuck => none

/-- The program after an `edb_close`: a database that was closed is freed. -/
def afterClose (process : Process) (h : Nat) : Outcome FileDb Unit → Option Process
  | .ok _ after => some ⟨process.held.eraseIdx h, after.log⟩
  | .error _ after => some ⟨process.held.set h (after.db, after.hFile), after.log⟩
  | .stuck => none

/-- What one call does to the program. There is no result when the call does not
return. -/
def step (process : Process) : FileStep → Option Process
  | .openFile file readonly overwrite bytes os =>
      process.afterOpen
        (edbOpenFile file readonly overwrite ⟨⟨bytes, closedEdb os⟩, 0, process.log⟩)
  | .closeFile h =>
      match process.held[h]? with
      | none => some process
      | some (db, hFile) => process.afterClose h (edbCloseFile ⟨db, hFile, process.log⟩)

/-- A sequence of calls. -/
def run (process : Process) (steps : List FileStep) : Option Process := steps.foldlM step process

/-- Of each descriptor, those that `open` returned are in use or were closed, each
of them once, and no other descriptor was closed. -/
def Balanced (process : Process) : Prop :=
  ∀ descriptor : Int,
    process.log.count (.opened descriptor) =
      process.log.count (.closed descriptor) + (process.held.map Prod.snd).count descriptor

end Process

/-- The blocks `io_open` asks for when a file has `size` bytes. -/
def openedBlocks (size : Nat) : Nat :=
  if u32 (size >>> blockBits) = 0 then 1 else u32 (size >>> blockBits)

/-- The operating system grants an `io_resize` from `size` bytes to `nblocks` blocks,
with nothing mapped. -/
structure ResizeGranted (os : Os) (size nblocks : Nat) : Prop where
  inRange : nblocks < 0xffffff00
  lengthened : size < fileBytes nblocks →
    os.answer os.calls.length (.posixFallocate (fileBytes nblocks)) = 0
  shortened : fileBytes nblocks < size →
    0 ≤ os.answer os.calls.length (.ftruncate (fileBytes nblocks))
  mapped : os.answer (os.calls.length + (lengthCalls size (fileBytes nblocks)).length)
    (.mmap (fileBytes nblocks)) ≠ -1

/-- The flags, the file and the operating system let `io_open` open the file. -/
structure OpenGranted (file : FileAnswer) (readonly overwrite : Bool) (os : Os) : Prop where
  flags : (readonly && overwrite) = false
  descriptor : 0 ≤ file.descriptor
  fstat : 0 ≤ file.fstat
  aligned : file.size &&& blockMask = 0
  resized : ResizeGranted os file.size (openedBlocks file.size)

/-- A call that does not fail inside `io_open`. -/
def FileStep.Granted : FileStep → Prop
  | .openFile file readonly overwrite _ os => OpenGranted file readonly overwrite os
  | .closeFile _ => True

/-! ## The descriptor apart -/

/-- A call does to the database what `plain` does, whatever the descriptor. -/
def Erases {α : Type} (call : Code FileDb α) (plain : Code EdbDb α) : Prop :=
  ∀ file, match call file with
    | .ok value after => plain file.db = .ok value after.db
    | .error code after => plain file.db = .error code after.db
    | .stuck => plain file.db = .stuck

namespace Erases

variable {α β : Type} {call : Code FileDb α} {plain : Code EdbDb α}

/-- A call on the database alone, seen with and without the descriptor. -/
theorem onDb (plain : Code EdbDb α) : Erases (EverDb.onDb plain) plain := by
  intro file
  unfold EverDb.onDb
  cases ran : plain file.db <;> rfl

/-- The same error code. -/
theorem fail (code : Int) : Erases (Code.fail (α := α) code) (.fail code) := fun _ => rfl

/-- One call after another. -/
theorem bind {next : α → Code FileDb β} {after : α → Code EdbDb β} (first : Erases call plain)
    (rest : ∀ value, Erases (next value) (after value)) :
    Erases (call >>= next) (plain >>= after) := by
  intro file
  have begun := first file
  cases ran : call file with
  | ok value middle =>
      rw [ran] at begun
      rw [Code.bind_ok ran, Code.bind_ok begun]
      exact rest value middle
  | error code middle =>
      rw [ran] at begun
      rw [Code.bind_error ran]
      exact Code.bind_error begun
  | stuck =>
      rw [ran] at begun
      rw [Code.bind_stuck ran]
      exact Code.bind_stuck begun

/-- A step that touches only the descriptor. -/
theorem before {next : Code FileDb β} {after : Code EdbDb β} {change : FileDb → FileDb}
    (same : ∀ file, (change file).db = file.db) (rest : Erases next after) :
    Erases (Code.update change >>= fun _ => next) after := by
  intro file
  have ended := rest (change file)
  rw [same file] at ended
  exact ended

/-- Both branches of a condition. -/
theorem ite {condition : Prop} [Decidable condition] {other : Code FileDb α} {second : Code EdbDb α}
    (left : Erases call plain) (right : Erases other second) :
    Erases (if condition then call else other) (if condition then plain else second) := by
  split
  · exact left
  · exact right

/-- An error exit. -/
theorem onError {exit : Int → Code FileDb α} {leave : Int → Code EdbDb α}
    (first : Erases call plain) (exits : ∀ code, Erases (exit code) (leave code)) :
    Erases (call.onError exit) (plain.onError leave) := by
  intro file
  have begun := first file
  unfold Code.onError
  cases ran : call file with
  | ok value middle =>
      rw [ran] at begun
      simp only [begun]
  | error code middle =>
      rw [ran] at begun
      simp only [begun]
      exact exits code middle
  | stuck =>
      rw [ran] at begun
      simp only [begun]

end Erases

/-- Closing the descriptor does not touch the database. -/
theorem closeDescriptor_db (file : FileDb) :
    (if 0 ≤ file.hFile then { file with hFile := 0, log := file.log ++ [.closed file.hFile] }
      else file : FileDb).db = file.db := by
  split <;> rfl

/-- `io_close` is the model without the descriptor, with `close` added. -/
theorem ioCloseFile_erases : Erases ioCloseFile ioClose :=
  (Erases.onDb _).bind fun _ => .before closeDescriptor_db (.onDb _)

/-- The error exit of `io_open` is the model without the descriptor, with `close` added. -/
theorem ioOpenFileFail_erases (code : Int) : Erases (ioOpenFileFail code) (ioOpenFail code) := by
  refine ioCloseFile_erases.bind fun _ => ?_
  unfold clearFile
  rw [Code.bind_assoc]
  exact (Erases.onDb _).bind fun _ => .before (fun _ => rfl) (.fail code)

/-- The end of `io_open`, which maps the file. -/
theorem ioOpenFileSized_erases : Erases ioOpenFileSized ioOpenSized := by
  intro file
  unfold ioOpenFileSized ioOpenSized
  rw [Code.gets_bind, Code.gets_bind]
  exact Erases.ite (ioOpenFileFail_erases _) (.onError (.onDb _) ioOpenFileFail_erases) file

/-- `io_open` is the model without the descriptor, with `open` added. -/
theorem ioOpenFile_erases (file : FileAnswer) (readonly overwrite : Bool) :
    Erases (ioOpenFile file readonly overwrite) (ioOpen file readonly overwrite) := by
  unfold ioOpenFile clearFile
  rw [Code.bind_assoc]
  refine (Erases.onDb _).bind fun _ => .before (fun _ => rfl) (.before (fun _ => rfl) ?_)
  refine .ite (ioOpenFileFail_erases _) ((Erases.onDb _).bind fun _ => .before (fun _ => rfl) ?_)
  refine .ite (ioOpenFileFail_erases _) ((Erases.onDb _).bind fun _ => ?_)
  exact .ite (ioOpenFileFail_erases _) ((Erases.onDb _).bind fun _ => ioOpenFileSized_erases)

/-- Without its descriptor, `edb_open` is the call modelled without one. -/
theorem edbOpenFile_erases (file : FileAnswer) (readonly overwrite : Bool) :
    Erases (edbOpenFile file readonly overwrite) (edbOpen file readonly overwrite) := by
  refine .onError ((ioOpenFile_erases _ _ _).bind fun _ => .onDb _) fun code => ?_
  exact ioCloseFile_erases.bind fun _ => .fail code

variable {file after : FileDb} {answer : FileAnswer} {readonly overwrite : Bool}

/-- What `io_close` adds to the calls. -/
def closing (descriptor : Int) : List FileCall :=
  if 0 ≤ descriptor then [.closed descriptor] else []

/-- What `open` adds to the calls. -/
def opening (descriptor : Int) : List FileCall :=
  if 0 ≤ descriptor then [.opened descriptor] else []

/-- A call on the database alone keeps descriptor and log when it succeeds. -/
theorem onDb_ok {α : Type} {call : Code EdbDb α} {value : α} {db : EdbDb}
    (ran : call file.db = .ok value db) : onDb call file = .ok value { file with db := db } := by
  simp only [onDb, ran]

/-- A call on the database alone keeps descriptor and log when it fails. -/
theorem onDb_error {α : Type} {call : Code EdbDb α} {code : Int} {db : EdbDb}
    (ran : call file.db = .error code db) :
    onDb call file = .error code { file with db := db } := by
  simp only [onDb, ran]

/-- `io_close` closes the descriptor and leaves zero. -/
theorem ioCloseFile_run (file : FileDb) :
    ∃ db, ioCloseFile file =
      .ok () ⟨db, if 0 ≤ file.hFile then 0 else file.hFile, file.log ++ closing file.hFile⟩ := by
  unfold ioCloseFile closing
  rw [Code.bind_ok (onDb_ok (ioMapClose_run _))]
  unfold closeDescriptor
  rw [Code.update_bind]
  by_cases valid : 0 ≤ file.hFile
  · simp only [if_pos valid]
    exact ⟨_, onDb_ok (Code.update_run _ _)⟩
  · simp only [if_neg valid, List.append_nil]
    exact ⟨_, onDb_ok (Code.update_run _ _)⟩

/-- `calloc` clears the record, and with it the descriptor. -/
theorem clearFile_run (file : FileDb) :
    clearFile file = .ok () ⟨⟨file.db.data, closedEdb file.db.ctl.os⟩, 0, file.log⟩ := rfl

/-- A failed `io_open` closes its descriptor and leaves zero. -/
theorem ioOpenFileFail_run (code : Int) (file : FileDb) :
    ∃ db, ioOpenFileFail code file = .error code ⟨db, 0, file.log ++ closing file.hFile⟩ := by
  obtain ⟨closed, ran⟩ := ioCloseFile_run file
  unfold ioOpenFileFail
  rw [Code.bind_ok ran, Code.bind_ok (clearFile_run _)]
  exact ⟨_, rfl⟩

/-- The error exit of `edb_open` closes what it finds in `h_file`. -/
theorem edbOpenFileFail_run (code : Int) (file : FileDb) :
    ∃ db hFile, edbOpenFileFail code file =
      .error code ⟨db, hFile, file.log ++ closing file.hFile⟩ := by
  obtain ⟨closed, ran⟩ := ioCloseFile_run file
  unfold edbOpenFileFail
  rw [Code.bind_ok ran]
  exact ⟨_, _, rfl⟩

/-- The operating system grants the call that changes the length of the file. -/
def LengthGranted (os : Os) (size filesize : Nat) : Prop :=
  (size < filesize → os.answer os.calls.length (.posixFallocate filesize) = 0) ∧
    (filesize < size → 0 ≤ os.answer os.calls.length (.ftruncate filesize))

/-- The length step keeps its code at zero exactly when its call is granted. -/
theorem ioSetLength_granted (db : EdbDb) (filesize : Nat) :
    ∃ code sized, ioSetLength filesize db = .ok code sized ∧
      (code = 0 ↔ LengthGranted db.ctl.os db.ctl.filesize filesize) ∧
      sized.ctl.os.answer = db.ctl.os.answer ∧
      sized.ctl.os.calls.length =
        db.ctl.os.calls.length + (lengthCalls db.ctl.filesize filesize).length := by
  unfold ioSetLength lengthCalls LengthGranted
  rw [Code.gets_bind]
  rcases Nat.lt_trichotomy db.ctl.filesize filesize with grows | same | shrinks
  · have notMore : ¬filesize < db.ctl.filesize := Nat.lt_asymm grows
    rw [if_pos grows, if_pos grows, osCall_bind]
    split
    · rename_i refused
      refine ⟨_, _, rfl, ?_, rfl, by simp [Db.withCtl]⟩
      simp [grows, notMore, refused]
    · rename_i granted
      refine ⟨_, _, rfl, ?_, rfl, by simp [Db.withCtl, Db.clip]⟩
      simpa [grows, notMore] using granted
  · have notLess : ¬db.ctl.filesize < filesize := by omega
    have notMore : ¬db.ctl.filesize > filesize := by omega
    rw [if_neg notLess, if_neg notMore, if_neg notLess, if_neg notMore]
    exact ⟨_, _, rfl, by simp [same], rfl, rfl⟩
  · have notLess : ¬db.ctl.filesize < filesize := Nat.lt_asymm shrinks
    rw [if_neg notLess, if_pos shrinks, if_neg notLess, if_pos shrinks, osCall_bind]
    split
    · rename_i refused
      refine ⟨_, _, rfl, ?_, rfl, by simp [Db.withCtl]⟩
      simp [shrinks, notLess, refused]
    · rename_i granted
      refine ⟨_, _, rfl, ?_, rfl, by simp [Db.withCtl, Db.clip]⟩
      simpa [shrinks, notLess] using granted

/-- The error exit of `io_resize` always ends with the code given to it. -/
theorem ioResizeFail_run (code : Int) (db : EdbDb) :
    ∃ after, ioResizeFail code db = .error code after := by
  unfold ioResizeFail
  rw [Code.bind_ok (ioMapClose_run db)]
  exact ⟨_, rfl⟩

/-- A database after `io_map_close`. -/
def mapClosed (db : EdbDb) : EdbDb :=
  db.withCtl fun ctl =>
    { ctl with
      mapped := false
      os := { ctl.os with calls := ctl.os.calls ++ if ctl.mapped then [.munmap ctl.filesize]
        else [] } }

/-- An `io_resize` always returns, and it succeeds exactly when each call it makes is
granted. -/
theorem ioResize_granted (db : EdbDb) (nblocks : Nat) :
    (ResizeGranted (mapClosed db).ctl.os db.ctl.filesize nblocks ∧
      ∃ after, ioResize nblocks db = .ok () after) ∨
    (¬ResizeGranted (mapClosed db).ctl.os db.ctl.filesize nblocks ∧
      ∃ code after, ioResize nblocks db = .error code after) := by
  unfold ioResize
  split
  · rename_i large
    exact .inr ⟨fun granted => absurd granted.inRange (Nat.not_lt.mpr large), _, _, rfl⟩
  · rename_i small
    have closed : ioMapClose db = .ok () (mapClosed db) := ioMapClose_run db
    obtain ⟨code, sized, lengthened, zero, answers, position⟩ :=
      ioSetLength_granted (mapClosed db) (fileBytes nblocks)
    rw [← fileBytes, Code.bind_ok closed, Code.bind_ok lengthened]
    split
    · rename_i failed
      obtain ⟨after, ran⟩ := ioResizeFail_run code sized
      refine .inr ⟨fun granted => failed (zero.mpr ⟨granted.lengthened, granted.shortened⟩),
        code, after, ran⟩
    · rename_i passed
      have grantedLength := zero.mp (Decidable.not_not.mp passed)
      unfold ioMap
      rw [osCall_bind, answers, position]
      split
      · rename_i refused
        obtain ⟨after, ran⟩ := ioResizeFail_run (-9) (sized.withCtl fun ctl =>
          { ctl with os := { ctl.os with calls := ctl.os.calls ++ [.mmap (fileBytes nblocks)] } })
        exact .inr ⟨fun granted => granted.mapped refused, _, after, ran⟩
      · rename_i mapped
        exact .inl ⟨⟨Nat.not_le.mp small, grantedLength.1, grantedLength.2, mapped⟩, _, rfl⟩

/-- What follows `io_open` in `edb_open` always returns. -/
theorem edbOpenMapped_returns (readonly overwrite : Bool) (db : EdbDb) :
    (∃ after, edbOpenMapped readonly overwrite db = .ok () after) ∨
      ∃ code after, edbOpenMapped readonly overwrite db = .error code after := by
  unfold edbOpenMapped
  rw [Code.gets_bind, setCtl, Code.update_bind]
  split
  · unfold edbInit
    generalize Db.withCtl db _ = rooted
    rcases ioResize_granted rooted edbUserData with ⟨_, sized, ran⟩ | ⟨_, code, failed, ran⟩
    · rw [Code.bind_ok ran, Code.gets_bind, Code.bind_ok (arrayInit_run _ _ _), Code.gets_bind,
        arrayInit_run]
      exact .inl ⟨_, rfl⟩
    · exact .inr ⟨_, _, Code.bind_error ran⟩
  · exact .inl ⟨_, rfl⟩

/-- A change of the control record before the rest of a call. -/
@[simp] theorem onDb_setCtl_bind {α : Type} (change : Edb → Edb) (next : Unit → Code FileDb α)
    (file : FileDb) :
    (onDb (setCtl change) >>= next) file = next () { file with db := file.db.withCtl change } := rfl

/-- The end of `io_open`, with the descriptor it opened. -/
theorem ioOpenFileSized_run (file : FileDb) (unmapped : file.db.ctl.mapped = false) :
    ((file.db.ctl.filesize &&& blockMask = 0 ∧
        ResizeGranted file.db.ctl.os file.db.ctl.filesize (openedBlocks file.db.ctl.filesize)) ∧
      ∃ db, ioOpenFileSized file = .ok () { file with db := db }) ∨
    (¬(file.db.ctl.filesize &&& blockMask = 0 ∧
        ResizeGranted file.db.ctl.os file.db.ctl.filesize (openedBlocks file.db.ctl.filesize)) ∧
      ∃ code db, ioOpenFileSized file = .error code ⟨db, 0, file.log ++ closing file.hFile⟩) := by
  unfold ioOpenFileSized
  rw [Code.gets_bind]
  split
  · rename_i misaligned
    obtain ⟨db, ran⟩ := ioOpenFileFail_run (-5) file
    exact .inr ⟨fun granted => misaligned granted.1, _, db, ran⟩
  · rename_i aligned
    have closed : (mapClosed file.db).ctl.os = file.db.ctl.os := by
      simp [mapClosed, Db.withCtl, unmapped]
    rcases ioResize_granted file.db (openedBlocks file.db.ctl.filesize) with
      ⟨granted, sized, ran⟩ | ⟨refused, code, failed, ran⟩
    · rw [closed] at granted
      exact .inl ⟨⟨Decidable.not_not.mp aligned, granted⟩, sized, Code.onError_ok (onDb_ok ran)⟩
    · rw [closed] at refused
      obtain ⟨db, failing⟩ := ioOpenFileFail_run code { file with db := failed }
      exact .inr ⟨fun granted => refused granted.2, _, db,
        (Code.onError_error (onDb_error ran)).trans failing⟩

/-- `O_TRUNC` changes the data at most. -/
theorem truncateFile_run (overwrite : Bool) (db : EdbDb) :
    ∃ data, truncateFile overwrite db = .ok () ⟨data, db.ctl⟩ := by
  cases overwrite
  · exact ⟨db.data, rfl⟩
  · exact ⟨(db.clip 0).data, rfl⟩

/-- `io_open` keeps the descriptor of a file it opens, and closes what it opened when
it fails. -/
theorem ioOpenFile_run (answer : FileAnswer) (readonly overwrite : Bool) (file : FileDb) :
    (OpenGranted answer readonly overwrite file.db.ctl.os ∧
      ∃ db, ioOpenFile answer readonly overwrite file =
        .ok () ⟨db, answer.descriptor, file.log ++ opening answer.descriptor⟩) ∨
    (¬OpenGranted answer readonly overwrite file.db.ctl.os ∧
      ∃ descriptor code db, ioOpenFile answer readonly overwrite file =
        .error code ⟨db, 0, file.log ++ opening descriptor ++ closing descriptor⟩) := by
  unfold ioOpenFile
  rw [Code.bind_ok (clearFile_run file), Code.update_bind]
  split
  · rename_i both
    obtain ⟨db, ran⟩ := ioOpenFileFail_run (-4)
      ⟨⟨file.db.data, closedEdb file.db.ctl.os⟩, -1, file.log ++ opening (-1)⟩
    refine .inr ⟨fun granted => ?_, -1, -4, db, ?_⟩
    · rw [granted.flags] at both
      cases both
    · simpa [opening] using ran
  · rename_i flags
    rw [onDb_setCtl_bind]
    unfold openDescriptor
    rw [Code.update_bind]
    have logged : (if 0 ≤ answer.descriptor then file.log ++ [FileCall.opened answer.descriptor]
        else file.log) = file.log ++ opening answer.descriptor := by
      unfold opening
      split <;> simp
    simp only [logged]
    split
    · rename_i absent
      obtain ⟨db, ran⟩ := ioOpenFileFail_run edbErrIoFileOpen
        ⟨_, answer.descriptor, file.log ++ opening answer.descriptor⟩
      exact .inr ⟨fun granted => Int.not_lt.mpr granted.descriptor absent, _, _, db, ran⟩
    · rename_i present
      obtain ⟨data, truncated⟩ := truncateFile_run overwrite
        ⟨file.db.data, { closedEdb file.db.ctl.os with readonly := readonly }⟩
      rw [Code.bind_ok (onDb_ok truncated)]
      split
      · rename_i unsized
        obtain ⟨db, ran⟩ := ioOpenFileFail_run edbErrIoFileSize
          ⟨_, answer.descriptor, file.log ++ opening answer.descriptor⟩
        exact .inr ⟨fun granted => Int.not_lt.mpr granted.fstat unsized, _, _, db, ran⟩
      · rename_i sized
        rw [onDb_setCtl_bind]
        let cleared : EdbDb := ⟨data,
          { closedEdb file.db.ctl.os with readonly := readonly, filesize := answer.size }⟩
        rcases ioOpenFileSized_run ⟨cleared, answer.descriptor,
          file.log ++ opening answer.descriptor⟩
          rfl with
          ⟨granted, db, ran⟩ | ⟨refused, code, db, ran⟩
        · exact .inl ⟨⟨Bool.eq_false_iff.mpr flags, Int.not_lt.mp present, Int.not_lt.mp sized,
            granted.1, granted.2⟩, db, ran⟩
        · exact .inr ⟨fun granted => refused ⟨granted.aligned, granted.resized⟩, _, code, db, ran⟩

/-- `edb_open` closes zero once more when `io_open` fails. -/
theorem edbOpenFile_run (answer : FileAnswer) (readonly overwrite : Bool) (file : FileDb) :
    (OpenGranted answer readonly overwrite file.db.ctl.os ∧
      ((∃ db, edbOpenFile answer readonly overwrite file =
          .ok () ⟨db, answer.descriptor, file.log ++ opening answer.descriptor⟩) ∨
        ∃ code after, edbOpenFile answer readonly overwrite file = .error code after ∧
          after.log = file.log ++ opening answer.descriptor ++ closing answer.descriptor)) ∨
    (¬OpenGranted answer readonly overwrite file.db.ctl.os ∧
      ∃ descriptor code after, edbOpenFile answer readonly overwrite file = .error code after ∧
        after.log = file.log ++ opening descriptor ++ closing descriptor ++ [.closed 0]) := by
  unfold edbOpenFile
  rcases ioOpenFile_run answer readonly overwrite file with
    ⟨granted, opened, ran⟩ | ⟨refused, descriptor, code, failed, ran⟩
  · refine .inl ⟨granted, ?_⟩
    rcases edbOpenMapped_returns readonly overwrite opened with
      ⟨db, mapped⟩ | ⟨code, failed, mapped⟩
    · refine .inl ⟨db, Code.onError_ok ?_⟩
      rw [Code.bind_ok ran]
      exact onDb_ok mapped
    · obtain ⟨db, hFile, failing⟩ := edbOpenFileFail_run code
        ⟨failed, answer.descriptor, file.log ++ opening answer.descriptor⟩
      refine .inr ⟨code, _, (Code.onError_error ?_).trans failing, rfl⟩
      rw [Code.bind_ok ran]
      exact onDb_error mapped
  · obtain ⟨db, hFile, failing⟩ := edbOpenFileFail_run code
      ⟨failed, 0, file.log ++ opening descriptor ++ closing descriptor⟩
    exact .inr ⟨refused, descriptor, code, _,
      (Code.onError_error (Code.bind_error ran)).trans failing, rfl⟩

/-! ## A program -/

/-- A program that has closed descriptor zero `extra` times too often, and is
otherwise balanced. -/
def Process.Owes (process : Process) (extra : Nat) : Prop :=
  ∀ descriptor : Int,
    process.log.count (.opened descriptor) + (if descriptor = 0 then extra else 0) =
      process.log.count (.closed descriptor) + (process.held.map Prod.snd).count descriptor

/-- The descriptors a program holds are those of open files. -/
def Process.Valid (process : Process) : Prop := ∀ entry ∈ process.held, 0 ≤ entry.2

namespace Process

variable {process : Process} {extra : Nat}

/-- The books are balanced when nothing is owed. -/
theorem balanced_iff (owes : process.Owes extra) : process.Balanced ↔ extra = 0 := by
  constructor
  · intro balanced
    have zero := owes 0
    rw [balanced 0, if_pos rfl] at zero
    omega
  · rintro rfl descriptor
    have same := owes descriptor
    rw [ite_self, Nat.add_zero] at same
    exact same

/-- An `open` counts once, if it answered a descriptor. -/
theorem count_opening_opened (descriptor other : Int) :
    (opening descriptor).count (.opened other) = if 0 ≤ descriptor ∧ descriptor = other then 1
    else 0 := by
  unfold opening
  by_cases valid : 0 ≤ descriptor
  · simp [valid, List.count_singleton]
  · simp [valid]

/-- A `close` counts once, if it was given a descriptor. -/
theorem count_closing_closed (descriptor other : Int) :
    (closing descriptor).count (.closed other) = if 0 ≤ descriptor ∧ descriptor = other then 1
    else 0 := by
  unfold closing
  by_cases valid : 0 ≤ descriptor
  · simp [valid, List.count_singleton]
  · simp [valid]

/-- An `open` closes nothing. -/
theorem count_opening_closed (descriptor other : Int) :
    (opening descriptor).count (.closed other) = 0 := by
  unfold opening
  split <;> simp

/-- A `close` opens nothing. -/
theorem count_closing_opened (descriptor other : Int) :
    (closing descriptor).count (.opened other) = 0 := by
  unfold closing
  split <;> simp

/-- Opening and closing the same descriptor leaves the account as it was. -/
theorem Owes.passing (owes : process.Owes extra) (descriptor : Int) :
    Owes ⟨process.held, process.log ++ opening descriptor ++ closing descriptor⟩ extra := by
  intro other
  have before := owes other
  simp only [List.count_append, count_opening_opened, count_closing_closed, count_opening_closed,
    count_closing_opened]
  omega

/-- Closing descriptor zero without a file. -/
theorem Owes.stray (owes : process.Owes extra) :
    Owes ⟨process.held, process.log ++ [.closed 0]⟩ (extra + 1) := by
  intro other
  have before := owes other
  by_cases zero : other = 0
  · subst zero
    simp only [List.count_append, List.count_singleton_self] at before ⊢
    simp at before ⊢
    omega
  · have apart : ¬(0 : Int) = other := fun same => zero same.symm
    simp [List.count_append, zero, apart] at before ⊢
    exact before

/-- A file that is kept open. -/
theorem Owes.keeping (owes : process.Owes extra) {descriptor : Int} (valid : 0 ≤ descriptor)
    (db : EdbDb) :
    Owes ⟨process.held ++ [(db, descriptor)], process.log ++ opening descriptor⟩ extra := by
  intro other
  have before := owes other
  by_cases same : descriptor = other
  · subst same
    simp [List.count_append, count_opening_opened, count_opening_closed, valid]
    omega
  · simp [List.count_append, count_opening_opened, count_opening_closed, same] at before ⊢
    omega

/-- A file that is given back. -/
theorem Owes.returning (owes : process.Owes extra) {h : Nat} {db : EdbDb} {descriptor : Int}
    (held : process.held[h]? = some (db, descriptor)) (valid : 0 ≤ descriptor) :
    Owes ⟨process.held.eraseIdx h, process.log ++ closing descriptor⟩ extra := by
  intro other
  have before := owes other
  obtain ⟨inside, entry⟩ := List.getElem?_eq_some_iff.mp held
  have arranged := List.getElem_cons_eraseIdx_perm inside
  rw [entry] at arranged
  have counted := (arranged.map Prod.snd).count_eq other
  simp only [List.map_cons, List.count_cons] at counted
  simp only [List.count_append, count_closing_closed, count_closing_opened]
  by_cases same : descriptor = other
  · subst same
    simp [valid] at counted ⊢
    omega
  · simp [same] at counted ⊢
    omega

/-- The step of a process that calls `edb_open`. -/
theorem step_open (process : Process) (answer : FileAnswer) (readonly overwrite : Bool)
    (bytes : Nat → Image) (os : Os) :
    process.step (.openFile answer readonly overwrite bytes os) =
      process.afterOpen
        (edbOpenFile answer readonly overwrite ⟨⟨bytes, closedEdb os⟩, 0, process.log⟩) := rfl

/-- The step of a process that calls `edb_close` on a database it holds. -/
theorem step_close {h : Nat} {db : EdbDb} {descriptor : Int}
    (held : process.held[h]? = some (db, descriptor)) :
    process.step (.closeFile h) =
      process.afterClose h (edbCloseFile ⟨db, descriptor, process.log⟩) := by
  simp only [step, held]

/-- A process that holds no such database makes no call. -/
theorem step_close_none {h : Nat} (none : process.held[h]? = none) :
    process.step (.closeFile h) = some process := by
  simp only [step, none]

/-- One call keeps the account, and adds to it exactly when it fails inside `io_open`. -/
theorem step_owes (owes : process.Owes extra) (valid : process.Valid) (call : FileStep) :
    ∃ after added, process.step call = some after ∧ after.Valid ∧ after.Owes (extra + added) ∧
      (added = 0 ↔ call.Granted) := by
  cases call with
  | openFile answer readonly overwrite bytes os =>
      rw [step_open]
      rcases edbOpenFile_run answer readonly overwrite ⟨⟨bytes, closedEdb os⟩, 0, process.log⟩ with
        ⟨granted, ⟨db, ran⟩ | ⟨code, failed, ran, logged⟩⟩ |
          ⟨refused, descriptor, code, failed, ran, logged⟩
      · rw [ran]
        refine ⟨_, 0, rfl, ?_, owes.keeping granted.descriptor db, iff_of_true rfl granted⟩
        intro entry inside
        rcases List.mem_append.mp inside with before | added
        · exact valid entry before
        · rw [List.mem_singleton.mp added]
          exact granted.descriptor
      · rw [ran]
        refine ⟨⟨process.held, failed.log⟩, 0, rfl, valid, ?_, iff_of_true rfl granted⟩
        rw [logged]
        exact owes.passing _
      · rw [ran]
        refine ⟨⟨process.held, failed.log⟩, 1, rfl, valid, ?_, iff_of_false Nat.one_ne_zero refused⟩
        rw [logged]
        exact (owes.passing _).stray
  | closeFile h =>
      cases held : process.held[h]? with
      | none => exact ⟨process, 0, step_close_none held, valid, owes, iff_of_true rfl trivial⟩
      | some entry =>
          obtain ⟨db, descriptor⟩ := entry
          have inUse : 0 ≤ descriptor := valid _ (List.mem_of_getElem? held)
          rw [step_close held]
          unfold edbCloseFile
          rw [Code.gets_bind]
          split
          · obtain ⟨closed, ran⟩ := ioCloseFile_run ⟨db, descriptor, process.log⟩
            rw [ran]
            exact ⟨_, 0, rfl, fun entry inside => valid entry (List.mem_of_mem_eraseIdx inside),
              owes.returning held inUse, iff_of_true rfl trivial⟩
          · have same : process.held.set h (db, descriptor) = process.held := by
              obtain ⟨inside, entry⟩ := List.getElem?_eq_some_iff.mp held
              rw [← entry, List.set_getElem_self]
            refine ⟨process, 0, ?_, valid, owes, iff_of_true rfl trivial⟩
            simp only [Code.fail_run, afterClose, same]

/-- A sequence of calls, one after another. -/
theorem Owes.run_owes (owes : process.Owes extra) (valid : process.Valid) (calls : List FileStep) :
    ∃ after added, process.run calls = some after ∧ after.Owes (extra + added) ∧
      (added = 0 ↔ ∀ call ∈ calls, call.Granted) := by
  induction calls generalizing process extra with
  | nil => exact ⟨process, 0, rfl, owes, by simp⟩
  | cons call rest ih =>
      obtain ⟨middle, first, stepped, kept, account, granted⟩ := step_owes owes valid call
      obtain ⟨after, later, ran, final, others⟩ := ih account kept
      refine ⟨after, first + later, ?_, Nat.add_assoc _ _ _ ▸ final, ?_⟩
      · unfold run at ran ⊢
        rw [List.foldlM_cons, stepped]
        exact ran
      · rw [List.forall_mem_cons, ← granted, ← others, Nat.add_eq_zero_iff]

end Process

/-- Every sequence of opens and closes returns, and it closes each descriptor that is
no longer in use once and no other one, exactly when no `edb_open` in it fails inside
`io_open`. -/
theorem descriptors_balanced_iff (calls : List FileStep) :
    ∃ after, Process.start.run calls = some after ∧
      (after.Balanced ↔ ∀ call ∈ calls, call.Granted) := by
  have account : Process.start.Owes 0 := by
    intro descriptor
    simp [Process.start]
  have valid : Process.start.Valid := by
    intro entry inside
    cases inside
  obtain ⟨after, added, ran, owes, granted⟩ := account.run_owes valid calls
  rw [Nat.zero_add] at owes
  exact ⟨after, ran, (Process.balanced_iff owes).trans granted⟩

/-- A file that cannot be opened: no descriptor was returned and zero is closed. -/
theorem open_closes_zero :
    ¬∀ (calls : List FileStep) (after : Process),
      Process.start.run calls = some after → after.Balanced := by
  intro always
  have balanced := always [.openFile ⟨-1, 0, 0⟩ false false (fun _ => Image.zero) grantingOs]
    ⟨[], [.closed 0]⟩ rfl 0
  revert balanced
  decide

end EverDb
