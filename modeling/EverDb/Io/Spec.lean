import EverDb.Io.Addressing
import EverDb.Io.Model

/-!
# Resizing the file

What `ioResize` does when the operating system grants every call: the new size
and the bytes that survive. The size is a 32-bit shift, so it is exact, and the
blocks are addressed apart, below `2 ^ 20` blocks and not beyond.
-/

namespace EverDb

open Foundation

/-- Every call succeeds, in the way `io.c` tests it. -/
def Os.Succeeds (os : Os) : Prop :=
  ∀ (count : Nat) (call : OsCall),
    match call with
    | .posixFallocate _ => os.answer count call = 0
    | .ftruncate _ => 0 ≤ os.answer count call
    | .mmap _ => os.answer count call ≠ -1
    | .munmap _ => True

/-- An operating system that grants every call. -/
def grantingOs : Os := ⟨fun _ _ => 0, []⟩

theorem grantingOs_succeeds : grantingOs.Succeeds := by
  intro count call
  cases call <;> simp [grantingOs]

/-- A database handle before its empty file is mapped. -/
def emptyFile : EdbDb := ⟨fun _ => Image.zero, closedEdb grantingOs⟩

/-- The bytes of a file of `nblocks` blocks, as `io_resize` computes them. -/
def fileBytes (nblocks : Nat) : Nat := u32 (nblocks <<< blockBits)

/-- The file size recorded is the one computed for the number of blocks. -/
def Db.Recorded (db : EdbDb) : Prop := db.ctl.filesize = fileBytes db.ctl.nblocks

/-- The calls that change the length of the file. -/
def lengthCalls (current filesize : Nat) : List OsCall :=
  if current < filesize then [.posixFallocate filesize]
  else if current > filesize then [.ftruncate filesize]
  else []

/-- The calls of a successful `io_resize`. -/
def resizeCalls (ctl : Edb) (filesize : Nat) : List OsCall :=
  (if ctl.mapped then [.munmap ctl.filesize] else []) ++ lengthCalls ctl.filesize filesize ++
    [.mmap filesize]

/-- The bytes after the length of the file has changed. -/
def resizedData (db : EdbDb) (filesize : Nat) : Nat → Image :=
  if db.ctl.filesize = filesize then db.data else (db.clip (min db.ctl.filesize filesize)).data

/-- The database after a successful `io_resize`. -/
def ioResized (db : EdbDb) (nblocks : Nat) : EdbDb where
  data := resizedData db (fileBytes nblocks)
  ctl := { db.ctl with
    mapped := true
    protWrite := !db.ctl.readonly
    filesize := fileBytes nblocks
    nblocks := nblocks
    os := { db.ctl.os with calls := db.ctl.os.calls ++ resizeCalls db.ctl (fileBytes nblocks) } }

theorem fileBytes_eq (nblocks : Nat) : fileBytes nblocks = u32 (nblocks * 4096) := by
  simp only [fileBytes, Nat.shiftLeft_eq, blockBits]

/-- Below `2 ^ 20` blocks the file size is exact. -/
theorem fileBytes_of_lt {nblocks : Nat} (small : nblocks < 1048576) :
    fileBytes nblocks = nblocks * 4096 := by
  rw [fileBytes_eq, u32_of_lt (by omega)]

theorem fileBytes_lt (nblocks : Nat) : fileBytes nblocks < 4294967296 := u32_lt _

variable {db : EdbDb} {nblocks : Nat}

/-- `io_map_close` unmaps once. -/
theorem ioMapClose_run (db : EdbDb) :
    ioMapClose db = .ok () (db.withCtl fun ctl =>
      { ctl with
        mapped := false
        os := { ctl.os with calls := ctl.os.calls ++
          if ctl.mapped then [.munmap ctl.filesize] else [] } }) := by
  obtain ⟨data, readonly, mapped, _⟩ := db
  cases mapped <;> simp [ioMapClose, Db.withCtl]

/-- The length step makes the calls it should and keeps the bytes in range. -/
theorem ioSetLength_run (filesize : Nat) (succeeds : db.ctl.os.Succeeds) :
    ioSetLength filesize db = .ok 0
      { data := resizedData db filesize
        ctl := { db.ctl with os := { db.ctl.os with
          calls := db.ctl.os.calls ++ lengthCalls db.ctl.filesize filesize } } } := by
  rcases Nat.lt_trichotomy db.ctl.filesize filesize with grows | same | shrinks
  · have granted : db.ctl.os.answer db.ctl.os.calls.length (.posixFallocate filesize) = 0 :=
      succeeds _ (.posixFallocate filesize)
    have different : db.ctl.filesize ≠ filesize := by omega
    simp [ioSetLength, Db.withCtl, Db.clip, resizedData, lengthCalls, grows, granted,
      different, Nat.min_eq_left (Nat.le_of_lt grows)]
  · subst same
    simp [ioSetLength, resizedData, lengthCalls]
  · have granted : 0 ≤ db.ctl.os.answer db.ctl.os.calls.length (.ftruncate filesize) :=
      succeeds _ (.ftruncate filesize)
    have different : db.ctl.filesize ≠ filesize := by omega
    have notLess : ¬db.ctl.filesize < filesize := by omega
    have nonnegative : ¬db.ctl.os.answer db.ctl.os.calls.length (.ftruncate filesize) < 0 := by
      omega
    simp [ioSetLength, Db.withCtl, Db.clip, resizedData, lengthCalls, shrinks, notLess,
      nonnegative, different, Nat.min_eq_right (Nat.le_of_lt shrinks)]

/-- The mapping may be written unless the database is open read-only. -/
theorem ioMap_run (filesize nblocks : Nat) (succeeds : db.ctl.os.Succeeds) :
    ioMap filesize nblocks db = .ok () (db.withCtl fun ctl =>
      { ctl with
        mapped := true
        protWrite := !ctl.readonly
        filesize := filesize
        nblocks := nblocks
        os := { ctl.os with calls := ctl.os.calls ++ [.mmap filesize] } }) := by
  unfold ioMap
  rw [osCall_bind, if_neg (succeeds _ (.mmap filesize))]
  rfl

/-- A resize that the operating system grants. -/
theorem ioResize_run (accepted : nblocks < 0xffffff00) (succeeds : db.ctl.os.Succeeds) :
    ioResize nblocks db = .ok () (ioResized db nblocks) := by
  have below : ¬nblocks ≥ 0xffffff00 := by omega
  have calls : db.ctl.os.calls ++ resizeCalls db.ctl (fileBytes nblocks) =
      db.ctl.os.calls ++ (if db.ctl.mapped then [.munmap db.ctl.filesize] else []) ++
        lengthCalls db.ctl.filesize (fileBytes nblocks) ++ [.mmap (fileBytes nblocks)] := by
    simp only [resizeCalls, List.append_assoc]
  unfold ioResize
  rw [if_neg below, Code.bind_ok (ioMapClose_run db),
    Code.bind_ok (ioSetLength_run _ (by exact succeeds)), if_neg (fun failed => failed rfl)]
  refine (ioMap_run _ _ (by exact succeeds)).trans ?_
  unfold ioResized
  rw [calls]
  rfl

/-- A file that grows is not truncated. -/
theorem ftruncate_not_called {ctl : Edb} {filesize : Nat} (grows : ctl.filesize ≤ filesize)
    (length : Nat) : OsCall.ftruncate length ∉ resizeCalls ctl filesize := by
  have notMore : ¬ctl.filesize > filesize := by omega
  simp only [resizeCalls, lengthCalls, notMore, if_false]
  split <;> split <;> simp

/-- What `io_resize` should do to the file: the size it leaves is exact, a larger
file is not truncated, and the blocks of the file are addressed apart. -/
structure ResizedExactly (before after : EdbDb) (nblocks : Nat) : Prop where
  filesize : after.ctl.filesize = nblocks * 4096
  kept : before.ctl.nblocks < nblocks →
    ∀ length, OsCall.ftruncate length ∉ after.ctl.os.calls.drop before.ctl.os.calls.length
  apart : AddressedApart nblocks after.ctl.filesize

/-- The file size and the addresses are exact for fewer than `2 ^ 20` blocks and
for no larger request. -/
theorem ioResize_exact_iff (recorded : db.Recorded) (accepted : nblocks < 0xffffff00)
    (succeeds : db.ctl.os.Succeeds) :
    (∃ after, ioResize nblocks db = .ok () after ∧ ResizedExactly db after nblocks) ↔
      nblocks < 1048576 := by
  rw [ioResize_run accepted succeeds]
  constructor
  · rintro ⟨after, ran, exactly⟩
    cases ran
    have size : fileBytes nblocks = nblocks * 4096 := exactly.filesize
    have bounded := fileBytes_lt nblocks
    omega
  · intro small
    have size := fileBytes_of_lt small
    refine ⟨_, rfl, size, ?_, ?_⟩
    · intro more length
      have before : db.ctl.filesize = db.ctl.nblocks * 4096 := by
        rw [recorded, fileBytes_of_lt (by omega)]
      simp only [ioResized, List.drop_left]
      exact ftruncate_not_called (by omega) length
    · simp only [ioResized, size]
      exact addressedApart_of_le (by omega)

/-- A new file with one block. -/
theorem ioResize_exact_iff_new :
    ∃ after, ioResize 1 emptyFile = .ok () after ∧ ResizedExactly emptyFile after 1 :=
  (ioResize_exact_iff (by rfl) (by decide) grantingOs_succeeds).mpr
    (by decide)

/-- A file of `2 ^ 20 - 1` blocks that is asked for `2 ^ 20 + 1`: the size wraps
to one block and the file is truncated to it. -/
theorem ioResize_wraps :
    ∃ db after : EdbDb, db.ctl.os.Succeeds ∧ db.Recorded ∧ db.ctl.nblocks = 1048575 ∧
      ioResize 1048577 db = .ok () after ∧ after.ctl.filesize = 4096 ∧
      OsCall.ftruncate 4096 ∈ after.ctl.os.calls.drop db.ctl.os.calls.length ∧
      ¬ResizedExactly db after 1048577 := by
  let db : EdbDb := ⟨fun _ => Image.zero,
    { closedEdb grantingOs with mapped := true, filesize := 4294963200, nblocks := 1048575 }⟩
  refine ⟨db, _, grantingOs_succeeds, rfl, rfl, ioResize_run (by decide) grantingOs_succeeds,
    rfl, by decide, ?_⟩
  intro exactly
  have size : fileBytes 1048577 = 1048577 * 4096 := exactly.filesize
  revert size
  decide

end EverDb
