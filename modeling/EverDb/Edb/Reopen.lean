import EverDb.Edb.Durable
import EverDb.Edb.Recovery

/-!
# Objects in the next program

A handle belongs to the program that opened it. What outlives the program is the object
list and the blocks that it names: the next program opens a handle of its own on the
object id. A transaction that was open when the program ended counts as aborted, because
the primary object list and the roots it names are written by commit only.
-/

namespace EverDb

open Foundation

/-- The file that a program leaves when it ends. -/
def Db.file (db : EdbDb) : StoredFile := ⟨db.ctl.filesize, db.data, []⟩

/-- What programs make of a file one after another: the database as the last transaction
left it, and the database now. The first program creates the file; every other one opens
it after it was closed between transactions. -/
inductive ObjectHistory (depth : Nat) : EdbDb → EdbDb → Prop
  | created {file : StoredFile} {answer : FileAnswer} {os : Os} {db : EdbDb} :
      os.Succeeds → answer.Grants file true →
      edbOpen answer false true ⟨file.data, closedEdb os⟩ = .ok () db →
      ObjectHistory depth db db
  | call {start db after : EdbDb} {op : ObjectOp} :
      ObjectHistory depth start db → KeepsRoots db op → Leaves after (op.run depth db) →
      ObjectHistory depth (if after.ctl.txn = [] then after else start) after
  | reopened {start db next : EdbDb} {answer : FileAnswer} {os : Os} :
      ObjectHistory depth start db → db.ctl.txn = [] → os.Succeeds → answer.Grants db.file false →
      edbOpen answer false false ⟨db.data, closedEdb os⟩ = .ok () next →
      ObjectHistory depth next next

/-- What the bytes of `db` keep of `start`. -/
structure Outlasts (start db : EdbDb) (objects : List Nat) : Prop where
  orderly : Orderly db
  catalogue : Catalogue start objects
  listed : Stack (db.data edbObjlist) objects
  same : ∀ root ∈ objects, db.data root = start.data root
  ended : db.ctl.txn = [] → start = db

variable {h depth root : Nat} {start db after next : EdbDb} {objects : List Nat}
  {base books : Books} {l : Ledger}
  {file : StoredFile} {answer : FileAnswer} {os : Os} {op : ObjectOp}

/-- The primary object list and the roots it names are as they were. -/
def SparesObjects (db after : EdbDb) (objects : List Nat) : Prop :=
  Stack (after.data edbObjlist) objects ∧ ∀ root ∈ objects, after.data root = db.data root

/-! ## One call -/

namespace Orderly

theorem outlasts (orderly : Orderly db) (ended : db.ctl.txn = []) :
    ∃ objects, Outlasts db db objects := by
  have kept := orderly
  cases orderly with
  | closed settled sound catalogue =>
      exact ⟨_, kept, catalogue, settled.objects, fun _ _ => rfl, fun _ => rfl⟩
  | opened tracks sound older catalogue =>
      rw [tracks.txn] at ended
      cases ended

/-- Outside a transaction only `edb_txn_begin` opens one, and it writes the secondary
freelist. -/
theorem spares_between (settled : Settled db books) (sound : books.Sound [] noBlocks.held)
    (leaves : Leaves after (op.run (depth + 2) db)) (open_ : after.ctl.txn ≠ []) :
    SparesObjects db after books.objects := by
  have unarmed : Unarmed true db :=
    ⟨settled.serves.writable, settled.serves.protWrite, settled.freelist,
    settled.objlist, settled.txn⟩
  have idle : ∀ call : ApiCall, call.kind ≠ .transaction →
      ¬Leaves after (call.run (depth + 2) db) :=
    fun _ other ran => open_ (ApiCall.idles (depth + 1) other unarmed ran).2.closed
  have refused : ∀ code : Int, op.run (depth + 2) db ≠ .error code db := by
    intro code ran
    rw [leaves.of_error ran] at open_
    exact open_ settled.txn
  cases op with
  | begin =>
      obtain ⟨begun, ran, tracks, _, _, data⟩ := settled.begin_run sound (depth + 2)
      cases leaves.of_ok ran
      refine ⟨tracks.baseObjects, fun root member => data root ?_⟩
      have place := sound.object_root member
      omega
  | create itemSize => exact (idle (.arrayCreate itemSize) (by simp [ApiCall.kind]) leaves).elim
  | reopen objId => exact (idle (.arrayOpen objId) (by simp [ApiCall.kind]) leaves).elim
  | push h buffer => exact (idle (.arrayPush h buffer) (by simp [ApiCall.kind]) leaves).elim
  | pop h => exact (idle (.arrayPop h) (by simp [ApiCall.kind]) leaves).elim
  | commit =>
      refine (refused edbErrTxnNoTransaction ?_).elim
      change edbTxnCommit (depth + 2) db = _
      unfold edbTxnCommit
      rw [Code.bind_ok (requireWritable_run settled.serves)]
      exact Code.bind_error (requireTxn_none settled.txn)
  | abort =>
      refine (refused edbErrTxnNoTransaction ?_).elim
      change edbTxnAbort (depth + 2) db = _
      unfold edbTxnAbort
      rw [Code.bind_ok (requireWritable_run settled.serves)]
      exact Code.bind_error (requireTxn_none settled.txn)

end Orderly

/-- How `obj_write` ends on an object of the open transaction: it fails without a write,
or it hands out the root. -/
theorem Tracks.objWrite_created (tracks : Tracks db base l) (sound : l.Sound [] base noBlocks)
    (catalogue : Catalogue db l.objects) (created : CreatedNow db h) (depth : Nat) :
    objWrite (edbApi (depth + 1)) h db = .stuck ∨
    (∃ code, objWrite (edbApi (depth + 1)) h db = .error code db) ∨
      ∃ handle root handles, db.ctl.handles[h]? = some handle ∧
      (dbLedger db).objects[handle.objId]? = some root ∧
        objWrite (edbApi (depth + 1)) h db = .ok root (db.withHandles handles) ∧
        l.table.get root = allocated ∧
        root ∈ l.objects := by
  cases found : db.ctl.handles[h]? with
  | none =>
      refine .inl (Code.bind_stuck (Code.bind_stuck ?_))
      unfold handleAt
      rw [found]
      rfl
  | some handle =>
      cases there : l.objects[handle.objId]? with
      | none =>
          exact .inr
            (.inl ⟨_, Code.bind_error (catalogue.refresh_fails (edbApi (depth + 1)) found there)⟩)
      | some root =>
          have listed : (dbLedger db).objects[handle.objId]? = some root := by
            rw [tracks.dbLedger_eq]
            exact there
          have state : l.table.get root = allocated := by
            have now := created handle root found listed
            rwa [tracks.dbLedger_eq] at now
          let handles := db.ctl.handles.set h ⟨handle.objId, db.ctl.txnId, root⟩
          have modified := (tracks.withHandles handles).modify_run_same sound.table.wf depth
            (by rw [state]; decide) (by rw [state]; decide)
          refine .inr
            (.inr ⟨handle, root, handles, rfl, listed, ?_, state, List.mem_of_getElem? there⟩)
          have again : handles.set h ⟨handle.objId, db.ctl.txnId, root⟩ = handles := List.set_set _
          unfold objWrite
          rw [Code.bind_ok (catalogue.refresh (edbApi (depth + 1)) found there),
            Code.bind_ok modified]
          change Outcome.ok root (db.withHandles (handles.set h _)) = _
          rw [again]

namespace Orderly

/-- A write into a block of the open transaction. -/
theorem spares_write (tracks : Tracks db base l) (sound : l.Sound [] base noBlocks)
    (state : l.table.get root = allocated) (member : root ∈ l.objects)
    (handles : List ObjHandle) (image : Image) :
    SparesObjects db ((db.withHandles handles).write root image) base.objects := by
  have place := sound.object_root member
  refine ⟨?_, fun other old => ?_⟩
  · have apart : edbObjlist ≠ root := by
      intro same
      have user := place.1
      rw [← same] at user
      exact absurd user (by decide)
    rw [Db.write_data_of_ne apart]
    exact tracks.baseObjects
  · have apart : other ≠ root := by
      rintro rfl
      have begun := (sound.live other (by simp [old])).2
      rw [state] at begun
      exact absurd begun (by decide)
    exact Db.write_data_of_ne apart

/-- Inside a transaction every call that does not end it writes new blocks and the
transaction's own lists. -/
theorem spares_within (tracks : Tracks db base l) (sound : l.Sound [] base noBlocks)
    (older : base.objects ⊆ l.objects) (catalogue : Catalogue db l.objects)
    (keeps : KeepsRoots db op)
    (leaves : Leaves after (op.run (depth + 2) db)) (open_ : after.ctl.txn ≠ []) :
    SparesObjects db after base.objects := by
  have begun : db.ctl.txn ≠ [] := by
    rw [tracks.txn]
    exact List.cons_ne_nil _ _
  have unchanged : SparesObjects db db base.objects := ⟨tracks.baseObjects, fun _ _ => rfl⟩
  cases op with
  | begin =>
      cases leaves.of_error (tracks.begin_run sound (depth + 1))
      exact unchanged
  | create itemSize =>
      have fits : l.CreateFits := by
        rw [← tracks.dbLedger_eq]
        exact keeps begun
      obtain ⟨made, ran, tracked, _, _, _, kept⟩ :=
        tracks.create_run sound depth itemSize.toNat fits
      obtain ⟨listed, _, _, new⟩ := sound.created fits
      cases leaves.of_ok (Code.bind_ok ran)
      refine ⟨tracked.baseObjects, fun root member => ?_⟩
      have place := sound.object_root (older member)
      have ready := sound.create fits
      refine kept root (by omega) ?_ ?_ place.2.1
      · intro same
        have state := (ready.live root (by simp [member])).2
        rw [same, new] at state
        exact absurd state (by decide)
      · have still : root ∈ l.create.2.objects := by
          rw [listed]
          exact List.mem_append_left _ (older member)
        exact (ready.object_root still).2.2
  | reopen objId =>
      cases leaves.of_ok (Code.bind_ok (newHandle_run _ db))
      exact unchanged
  | push h buffer =>
      obtain ⟨created, room⟩ := keeps begun
      have called : Leaves after (edbArrayPush (depth + 2) h buffer db) := leaves
      unfold edbArrayPush at called
      rcases tracks.objWrite_created sound catalogue created (depth + 1) with
        ran | ⟨code, ran⟩ | ⟨handle, root, handles, found, there, ran, state, member⟩
      · exact (called.not_stuck (Code.bind_stuck ran)).elim
      · cases called.of_error (Code.bind_error ran)
        exact unchanged
      · obtain ⟨size, elems, array⟩ := catalogue.arrays root member
        have fits : elems.length < 4084 / size := by
          have inside := room handle root found there
          have length : arrayLength db root = elems.length := array.length
          have itemSize : ptItemSize db root = size := array.itemSize
          rwa [length, itemSize] at inside
        have positive : 0 < size := by
          rcases Nat.eq_zero_or_pos size with zero | positive
          · rw [zero, Nat.div_zero] at fits
            omega
          · exact positive
        have current : InlineArray ((db.withHandles handles).data root) size elems := array
        obtain ⟨image, pushed, _⟩ := current.push (edbApi (depth + 2)) positive fits buffer
        cases called.of_ok ((Code.bind_ok ran).trans pushed)
        exact spares_write tracks sound state member handles image
  | pop h =>
      have called : Leaves after (dropped (edbArrayPop (depth + 2) h) db) := leaves
      unfold edbArrayPop at called
      rcases tracks.objWrite_created sound catalogue (keeps begun) (depth + 1) with
        ran | ⟨code, ran⟩ | ⟨handle, root, handles, found, there, ran, state, member⟩
      · exact (called.not_stuck (Code.bind_stuck (Code.bind_stuck ran))).elim
      · cases called.of_error (Code.bind_error (Code.bind_error ran))
        exact unchanged
      · obtain ⟨size, elems, array⟩ := catalogue.arrays root member
        have current : InlineArray ((db.withHandles handles).data root) size elems := array
        rcases List.eq_nil_or_concat' elems with none | ⟨rest, last, split⟩
        · -- the index below the first one is outside
          have length : arrayLength (db.withHandles handles) root = 0 := by
            rw [none] at current
            exact current.length
          have outside : arrayLength (db.withHandles handles) root ≤ sub32 0 1 := by
            rw [length]
            exact Nat.zero_le _
          have failed : arrayPop (edbApi (depth + 2)) root (db.withHandles handles) =
              .error errArrayIndexOutOfBounds (db.withHandles handles) := by
            unfold arrayPop
            rw [load_bind,
              show ((db.withHandles handles).data root).word lengthWord = 0 from length]
            exact Code.bind_error (arrayGet_outside (edbApi (depth + 2)) outside)
          cases called.of_error (Code.bind_error ((Code.bind_ok ran).trans failed))
          exact unchanged
        · rw [split] at current
          obtain ⟨image, popped, _⟩ := current.pop (edbApi (depth + 2))
          cases called.of_ok (Code.bind_ok ((Code.bind_ok ran).trans popped))
          exact spares_write tracks sound state member handles image
  | commit =>
      have room := keeps.2 begun
      rw [tracks.dbLedger_eq] at room
      obtain ⟨committed, ran, settled, _⟩ := tracks.commit_run sound (depth + 1) room
      cases leaves.of_ok ran
      exact absurd settled.txn open_
  | abort =>
      obtain ⟨aborted, ran, settled, _⟩ := tracks.abort_run sound (depth + 2)
      cases leaves.of_ok ran
      exact absurd settled.txn open_

/-! ## The next program -/

/-- The next program finds the bytes and the primary lists. -/
theorem reopen (orderly : Orderly db) (succeeds : os.Succeeds)
    (grants : answer.Grants db.file false) :
    ∃ next, edbOpen answer false false ⟨db.data, closedEdb os⟩ = .ok () next ∧ next.data = db.data ∧
      next.ctl.objlist = edbObjlist ∧ next.ctl.handles = [] ∧ next.ctl.txnId = 0 ∧
      (db.ctl.txn = [] → Orderly next) := by
  cases orderly with
  | closed settled sound catalogue =>
      have user := sound.user
      obtain ⟨next, opened, data, serves, nblocks, freelist, objlist, txn, handles, number⟩ :=
        edbOpen_whole grants succeeds (settled.serves.size settled.nblocks sound.bounded)
          (by omega) sound.bounded
      refine ⟨next, opened, data, objlist, handles, number, fun _ => ?_⟩
      have found : Settled next _ :=
        ⟨serves, nblocks, freelist, objlist, txn, by rw [data]; exact settled.free,
        by rw [data]; exact settled.objects⟩
      refine .closed found sound ⟨?_, ?_, ?_, ?_, ?_⟩
      · rw [objlist]
        exact found.objects
      · rw [data]
        exact catalogue.arrays
      · simp [handles]
      · simp [handles]
      · rw [number]
        decide
  | opened tracks sound older catalogue =>
      have user := sound.begun.user
      have grown := sound.grown
      obtain ⟨next, opened, data, serves, nblocks, freelist, objlist, txn, handles, number⟩ :=
        edbOpen_whole grants succeeds (tracks.serves.size tracks.nblocks sound.bounded)
          (by omega) sound.bounded
      refine ⟨next, opened, data, objlist, handles, number, fun ended => ?_⟩
      rw [tracks.txn] at ended
      cases ended

/-- A database that `overwrite` created. -/
theorem created (succeeds : os.Succeeds) (grants : answer.Grants file true)
    (opened : edbOpen answer false true ⟨file.data, closedEdb os⟩ = .ok () db) :
    Orderly db ∧ db.ctl.txn = [] := by
  obtain ⟨fresh, ran, settled, _⟩ := edbOpenNew_run succeeds
  have emptied :
      (⟨((⟨file.data, closedEdb os⟩ : EdbDb).clip 0).data, closedEdb os⟩ : EdbDb) = newFile os := by
    simp [Db.clip, newFile]
  have same : edbOpen answer false true ⟨file.data, closedEdb os⟩ = .ok () fresh :=
    edbOpen_new grants.descriptor grants.fstat (by simpa using grants.size) succeeds (emptied ▸ ran)
  rw [opened] at same
  cases same
  exact ⟨.fresh succeeds ran, settled.txn⟩

end Orderly

namespace Outlasts

/-- One call. -/
theorem step (kept : Outlasts start db objects) (keeps : KeepsRoots db op)
    (leaves : Leaves after (op.run (depth + 2) db)) :
    ∃ objects, Outlasts (if after.ctl.txn = [] then after else start) after objects := by
  have orderly := kept.orderly.step keeps leaves
  by_cases ended : after.ctl.txn = []
  · rw [if_pos ended]
    exact orderly.outlasts ended
  · rw [if_neg ended]
    cases kept.orderly with
    | closed settled sound catalogue =>
        obtain ⟨listed, data⟩ := Orderly.spares_between settled sound leaves ended
        cases kept.ended settled.txn
        exact ⟨_, orderly, catalogue, listed, data, fun closed => absurd closed ended⟩
    | opened tracks sound older catalogue =>
        obtain ⟨listed, data⟩ :=
          Orderly.spares_within tracks sound older catalogue keeps leaves ended
        have begun : _ = objects := tracks.baseObjects.words.symm.trans kept.listed.words
        rw [begun] at listed data
        have same : ∀ root ∈ objects, after.data root = start.data root := fun root member =>
          (data root member).trans (kept.same root member)
        exact ⟨objects, orderly, kept.catalogue, listed, same, fun closed => absurd closed ended⟩

end Outlasts

/-- Every database of a history. -/
theorem ObjectHistory.outlasts (history : ObjectHistory (depth + 2) start db) :
    ∃ objects, Outlasts start db objects := by
  induction history with
  | created succeeds grants opened =>
      obtain ⟨orderly, closed⟩ := Orderly.created succeeds grants opened
      exact orderly.outlasts closed
  | call history keeps leaves earlier =>
      obtain ⟨objects, kept⟩ := earlier
      exact kept.step keeps leaves
  | reopened history closed succeeds grants opened earlier =>
      obtain ⟨objects, kept⟩ := earlier
      obtain ⟨next, ran, _, _, _, _, orderly⟩ := kept.orderly.reopen succeeds grants
      rw [opened] at ran
      cases ran
      exact (orderly closed).outlasts (edbOpen_mode opened).2.2.2.2

/-- Whenever a program ends, the next one opens the file, and a handle that it opens on
an object reads what every handle on the object read when the last transaction had ended.
Where the program ended between transactions, all its commits go on keeping what the
handles read. -/
theorem objects_outlive_program (history : ObjectHistory (depth + 2) start db)
    (succeeds : os.Succeeds) (grants : answer.Grants db.file false) :
    ∃ next, edbOpen answer false false ⟨db.data, closedEdb os⟩ = .ok () next ∧ next.data = db.data ∧
      (∀ (h : Nat) (handle : ObjHandle), start.ctl.handles[h]? = some handle →
        ∃ new reopened, edbArrayOpen handle.objId next = .ok new reopened ∧
          SameReads (depth + 2) start h reopened new) ∧
      (db.ctl.txn = [] → ∀ ops, RunKeepsRoots (depth + 2) next ops →
        RunDurable (depth + 2) next ops) := by
  obtain ⟨objects, kept⟩ := history.outlasts
  obtain ⟨next, opened, data, objlist, handles, number, orderly⟩ :=
    kept.orderly.reopen succeeds grants
  have found : Catalogue next objects := by
    refine ⟨?_, ?_, ?_, ?_, ?_⟩
    · rw [objlist, data]
      exact kept.listed
    · intro root member
      rw [data, kept.same root member]
      exact kept.catalogue.arrays root member
    · simp [handles]
    · simp [handles]
    · rw [number]
      decide
  refine ⟨next, opened, data, fun h handle old => ⟨_, _, newHandle_run _ next, ?_⟩, ?_⟩
  · refine kept.catalogue.sameReads (found.reopened handle.objId) old
      List.getElem?_concat_length rfl ?_
    intro root member
    exact (congrFun data root).trans (kept.same root member)
  · intro closed ops keeps
    exact (orderly closed).run_durable depth ops keeps

/-- Make calls, each of which keeps the roots. -/
def followRoots (depth : Nat) (pair : EdbDb × EdbDb) : List ObjectOp → Option (EdbDb × EdbDb)
  | [] => some pair
  | op :: ops =>
      if KeepsRoots pair.2 op then
        match op.run depth pair.2 with
        | .ok _ after => followRoots depth (if after.ctl.txn = [] then after else pair.1, after) ops
        | .error _ after =>
            followRoots depth (if after.ctl.txn = [] then after else pair.1, after) ops
        | .stuck => none
      else none

theorem ObjectHistory.follow {pair last : EdbDb × EdbDb}
    (history : ObjectHistory depth pair.1 pair.2)
    (ops : List ObjectOp) (followed : followRoots depth pair ops = some last) :
    ObjectHistory depth last.1 last.2 := by
  induction ops generalizing pair with
  | nil =>
      cases followed
      exact history
  | cons op ops later =>
      unfold followRoots at followed
      split at followed
      · rename_i keeps
        cases ran : op.run depth pair.2 with
        | ok value after =>
            rw [ran] at followed
            exact later (.call history keeps (ran ▸ .ok value)) followed
        | error code after =>
            rw [ran] at followed
            exact later (.call history keeps (ran ▸ .error code)) followed
        | stuck =>
            rw [ran] at followed
            cases followed
      · cases followed

/-- A program that is killed in its second transaction, after it has committed one object
with one element and created another. -/
theorem objects_outlive_program_killed :
    ∃ start db next, ObjectHistory 2 start db ∧ db.ctl.txn ≠ [] ∧
    edbOpen ⟨0, 0, db.ctl.filesize⟩ false false ⟨db.data, closedEdb grantingOs⟩ = .ok () next ∧
    (∃ handle, start.ctl.handles[0]? = some handle ∧
      ∃ new reopened, edbArrayOpen handle.objId next = .ok new reopened ∧
      SameReads 2 start 0 reopened new) ∧ readLength 2 0 start = some (.ok 1) := by
  have run :
      (edbOpen ⟨0, 0, 0⟩ false true ⟨missingFile.data, closedEdb grantingOs⟩).passes (fun _ db =>
      match followRoots 2 (db, db) [.begin, .create 4, .push 0 (Image.ofWord 7), .commit,
        .begin, .create 2] with
      | some (start, last) =>
          decide (last.ctl.txn ≠ []) && decide (0 < start.ctl.handles.length) &&
            (edbArrayLength 2 0 start).passes fun length _ => length == 1
      | none => false) = true := by
    decide +kernel
  obtain ⟨_, made, opened, holds⟩ := Outcome.of_passes run
  split at holds
  · rename_i start db followed
    rw [Bool.and_eq_true, Bool.and_eq_true, decide_eq_true_eq, decide_eq_true_eq] at holds
    obtain ⟨⟨inside, listed⟩, one⟩ := holds
    obtain ⟨length, _, reads, isOne⟩ := Outcome.of_passes one
    have created : ObjectHistory 2 made made :=
      .created grantingOs_succeeds (show FileAnswer.Grants ⟨0, 0, 0⟩ missingFile true from
        ⟨by decide, by decide, rfl⟩) opened
    have history := created.follow _ followed
    obtain ⟨next, reopens, _, keeps, _⟩ := objects_outlive_program history grantingOs_succeeds
      (show FileAnswer.Grants ⟨0, 0, db.ctl.filesize⟩ _ false from ⟨Int.le_refl 0,
        Int.le_refl 0, rfl⟩)
    have found : start.ctl.handles[0]? = some start.ctl.handles[0] :=
      List.getElem?_eq_getElem listed
    refine ⟨start, db, next, history, inside, reopens, ⟨_, found, keeps 0 _ found⟩, ?_⟩
    rw [beq_iff_eq] at isOne
    unfold readLength
    rw [reads, isOne]
  · cases holds

end EverDb
