import EverDb.Edb.Model
import EverDb.Io.Spec

/-!
# Opening a file

`io_open` and `edb_open`. What `open` and `fstat` answer for the file is an
argument; the bytes of the file are those of the database before the call.
-/

namespace EverDb

open Foundation

/-- `EDB_ERR_IO_FILE_OPEN`. -/
abbrev edbErrIoFileOpen : Int := 2001

/-- `EDB_ERR_IO_FILE_SIZE`. -/
abbrev edbErrIoFileSize : Int := 2002

/-- `EDB_ERROR_OPEN_TXN`. -/
abbrev edbErrorOpenTxn : Int := 1003

/-- `BLOCK_MASK`. -/
abbrev blockMask : Nat := 4095

/-- The answers of `open` and `fstat`, and `st_size`. -/
structure FileAnswer where
  descriptor : Int
  fstat : Int
  size : Nat

/-- `memset(db, 0, sizeof(edb))`. -/
def clearEdb : Code EdbDb Unit := setCtl fun ctl => closedEdb ctl.os

/-- `io_close`, without the call of `close`. -/
def ioClose : Code EdbDb Unit := do
  ioMapClose
  setCtl fun ctl => { ctl with filesize := 0, nblocks := 0 }

/-- The error exit of `io_open`. -/
def ioOpenFail (code : Int) : Code EdbDb Unit := do
  ioClose
  clearEdb
  .fail code

/-- The end of `io_open`, once the size of the file is known. -/
def ioOpenSized : Code EdbDb Unit := do
  let filesize ← .gets fun db => db.ctl.filesize
  if filesize &&& blockMask ≠ 0 then ioOpenFail (-5)
  else do
    let nblocks := u32 (filesize >>> blockBits)
    (ioResize (if nblocks = 0 then 1 else nblocks)).onError ioOpenFail

/-- What `O_TRUNC` does to an existing file. -/
def truncateFile (overwrite : Bool) : Code EdbDb Unit :=
  if overwrite then .update (Db.clip · 0) else pure ()

/-- `io_open`. -/
def ioOpen (file : FileAnswer) (readonly overwrite : Bool) : Code EdbDb Unit := do
  clearEdb
  if readonly && overwrite then ioOpenFail (-4)
  else do
    setCtl fun ctl => { ctl with readonly := readonly }
    if file.descriptor < 0 then ioOpenFail edbErrIoFileOpen
    else do
      truncateFile overwrite
      if file.fstat < 0 then ioOpenFail edbErrIoFileSize
      else do
        setCtl fun ctl => { ctl with filesize := file.size }
        ioOpenSized

/-- The new values of `is_new` and `readonly` in `edb_open`. The condition reads
`overwrite || (readonly = 0 && db->nblocks == 1)`, which assigns to `readonly` the
conjunction of zero and the comparison. -/
def openMode (readonly overwrite : Bool) (nblocks : Nat) : Bool × Bool :=
  if overwrite then (true, readonly)
  else
    let assigned := false && nblocks == 1
    (assigned, assigned)

/-- `edb_check`. -/
def edbCheck : Code EdbDb Unit := pure ()

/-- The error exit of `edb_open`. -/
def edbOpenFail (code : Int) : Code EdbDb Unit := do
  ioClose
  .fail code

/-- The part of `edb_open` that follows `io_open`. -/
def edbOpenMapped (readonly overwrite : Bool) : Code EdbDb Unit := do
  let nblocks ← .gets fun db => db.ctl.nblocks
  let mode := openMode readonly overwrite nblocks
  setCtl fun ctl =>
    { ctl with readonly := mode.2, freelist := edbFreelistPrimary, objlist := edbObjlist }
  if mode.1 then edbInit else edbCheck

/-- `edb_open`. -/
def edbOpen (file : FileAnswer) (readonly overwrite : Bool) : Code EdbDb Unit :=
  (ioOpen file readonly overwrite >>= fun _ => edbOpenMapped readonly overwrite).onError edbOpenFail

/-- `edb_close`, without the call of `close`. The control record is freed behind it. -/
def edbClose : Code EdbDb Unit := do
  let txn ← .gets fun db => db.ctl.txn.isEmpty
  if txn then ioClose else .fail edbErrorOpenTxn

variable {file : FileAnswer} {readonly : Bool} {db start : EdbDb}

/-- A run that ended well, behind an error exit that never does. -/
theorem of_onError_ok {call : Code EdbDb Unit} {exit : Int → Code EdbDb Unit}
    (refuses : ∀ code failed after, exit code failed ≠ .ok () after)
    (ran : call.onError exit start = .ok () db) : call start = .ok () db := by
  unfold Code.onError at ran
  cases called : call start with
  | ok value after =>
      rw [called] at ran
      exact ran
  | error code after =>
      rw [called] at ran
      exact absurd ran (refuses code after db)
  | stuck =>
      rw [called] at ran
      cases ran

theorem ioClose_run (db : EdbDb) : ∃ after, ioClose db = .ok () after :=
  ⟨_, Code.bind_ok (ioMapClose_run db)⟩

theorem ioOpenFail_run (code : Int) (db : EdbDb) :
    ∃ after, ioOpenFail code db = .error code after := by
  obtain ⟨closed, ran⟩ := ioClose_run db
  exact ⟨_, Code.bind_ok ran⟩

theorem edbOpenFail_run (code : Int) (db : EdbDb) :
    ∃ after, edbOpenFail code db = .error code after := by
  obtain ⟨closed, ran⟩ := ioClose_run db
  exact ⟨_, Code.bind_ok ran⟩

/-- Whatever the operating system answers, a resize that succeeds leaves the transactions
alone, and the mapping may be written unless the database is read-only. -/
theorem ioResize_ok {nblocks : Nat} (ran : ioResize nblocks start = .ok () db) :
    db.ctl.txn = start.ctl.txn ∧ db.ctl.protWrite = !start.ctl.readonly := by
  unfold ioResize at ran
  split at ran
  · cases ran
  · rw [Code.bind_ok (ioMapClose_run start)] at ran
    obtain ⟨code, sized, lengthened, mapping⟩ := Code.of_bind_ok ran
    have kept : sized.ctl.txn = start.ctl.txn ∧ sized.ctl.readonly = start.ctl.readonly := by
      simp only [ioSetLength, Code.gets_bind] at lengthened
      split at lengthened
      · rw [osCall_bind] at lengthened
        split at lengthened <;> cases lengthened <;> exact ⟨rfl, rfl⟩
      · split at lengthened
        · rw [osCall_bind] at lengthened
          split at lengthened <;> cases lengthened <;> exact ⟨rfl, rfl⟩
        · cases lengthened
          exact ⟨rfl, rfl⟩
    have refuses : ∀ (code : Int) (failed : EdbDb), ioResizeFail code failed ≠ .ok () db := by
      intro code failed ended
      unfold ioResizeFail at ended
      rw [Code.bind_ok (ioMapClose_run failed)] at ended
      cases ended
    split at mapping
    · exact absurd mapping (refuses _ _)
    · unfold ioMap at mapping
      rw [osCall_bind] at mapping
      split at mapping
      · exact absurd mapping (refuses _ _)
      · cases mapping
        exact ⟨kept.1, congrArg not kept.2⟩

/-- `io_open` leaves no transaction open, and maps the file in the mode asked for. -/
theorem ioOpen_ok (opened : ioOpen file readonly false start = .ok () db) :
    db.ctl.txn = [] ∧ db.ctl.protWrite = !readonly := by
  have refuses : ∀ (code : Int) (failed after : EdbDb), ioOpenFail code failed ≠ .ok () after := by
    intro code failed after ended
    obtain ⟨last, failing⟩ := ioOpenFail_run code failed
    rw [failing] at ended
    cases ended
  unfold ioOpen clearEdb setCtl at opened
  rw [Code.update_bind, Bool.and_false, if_neg (by decide), Code.update_bind] at opened
  split at opened
  · exact absurd opened (refuses _ _ _)
  · have kept : ∀ db : EdbDb, truncateFile false db = .ok () db := fun _ => rfl
    rw [Code.bind_ok (kept _)] at opened
    split at opened
    · exact absurd opened (refuses _ _ _)
    · rw [Code.update_bind] at opened
      unfold ioOpenSized at opened
      rw [Code.gets_bind] at opened
      split at opened
      · exact absurd opened (refuses _ _ _)
      · exact ioResize_ok (of_onError_ok refuses opened)

/-- A file opened without `overwrite` is open for writing and outside a transaction,
whichever mode the caller asked for; only the mapping has that mode. -/
theorem edbOpen_mode (opened : edbOpen file readonly false start = .ok () db) :
    db.ctl.readonly = false ∧ db.ctl.protWrite = (!readonly) ∧
    db.ctl.freelist = edbFreelistPrimary ∧
      db.ctl.objlist = edbObjlist ∧ db.ctl.txn = [] := by
  have refuses : ∀ (code : Int) (failed after : EdbDb), edbOpenFail code failed ≠ .ok () after := by
    intro code failed after ended
    obtain ⟨last, failing⟩ := edbOpenFail_run code failed
    rw [failing] at ended
    cases ended
  obtain ⟨_, mapped, ran, ended⟩ := Code.of_bind_ok (of_onError_ok refuses opened)
  obtain ⟨closed, protWrite⟩ := ioOpen_ok ran
  cases ended
  exact ⟨rfl, protWrite, rfl, rfl, closed⟩

/-- An empty file opened with `overwrite` is initialised as `edbOpenNew` does. -/
theorem edbOpen_new (present : 0 ≤ file.descriptor) (sized : 0 ≤ file.fstat) (empty : file.size = 0)
    (granted : start.ctl.os.Succeeds)
    (initialised : edbOpenNew ⟨(start.clip 0).data, closedEdb start.ctl.os⟩ = .ok () db) :
    edbOpen file false true start = .ok () db := by
  have mapped : ioResize 1 ⟨(start.clip 0).data, closedEdb start.ctl.os⟩ =
      .ok () (ioResized ⟨(start.clip 0).data, closedEdb start.ctl.os⟩ 1) :=
    ioResize_run (by decide) granted
  have cleared :
      ioOpen file false true start = ioResize 1 ⟨(start.clip 0).data, closedEdb start.ctl.os⟩ := by
    have truncated : ∀ db : EdbDb, truncateFile true db = .ok () (db.clip 0) := fun _ => rfl
    unfold ioOpen clearEdb setCtl
    rw [Code.update_bind, Bool.false_and, if_neg (by decide), Code.update_bind, if_neg (by omega),
      Code.bind_ok (truncated _), if_neg (by omega), Code.update_bind]
    unfold ioOpenSized
    rw [Code.gets_bind]
    simp only [Db.withCtl, empty, Nat.zero_and, ne_eq, not_true_eq_false, if_false,
      Nat.zero_shiftRight]
    exact (Code.onError_ok mapped).trans mapped.symm
  unfold edbOpen
  refine Code.onError_ok ?_
  unfold edbOpenNew at initialised
  rw [Code.bind_ok mapped] at initialised
  rw [Code.bind_ok (cleared.trans mapped)]
  exact initialised

end EverDb
