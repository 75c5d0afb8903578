import EverDb.Edb.Element
import EverDb.Edb.ReadOnly

/-!
# What a commit keeps

`obj_write` moves the root of an object the first time a transaction writes it, and
only the handle follows: the object list goes on naming the old root, and commit
releases the old root's copy. An object that the open transaction created stays in
its block, and commit keeps it.
-/

namespace EverDb

open Foundation

/-- The calls on objects. -/
inductive ObjectOp where
  | begin
  | create (itemSize : UInt8)
  | reopen (objId : Nat)
  | push (h : Nat) (buffer : Image)
  | pop (h : Nat)
  | commit
  | abort

namespace ObjectOp

/-- Make the call. -/
def run (depth : Nat) : ObjectOp → Code EdbDb Unit
  | begin => edbTxnBegin depth
  | create itemSize => dropped (edbArrayCreate depth itemSize.toNat)
  | reopen objId => dropped (edbArrayOpen objId)
  | push h buffer => edbArrayPush depth h buffer
  | pop h => dropped (edbArrayPop depth h)
  | commit => edbTxnCommit depth
  | abort => edbTxnAbort depth

end ObjectOp

/-- Two handles, in two databases, read one length and the same elements. -/
structure SameReads (depth : Nat) (db : EdbDb) (h : Nat) (after : EdbDb) (h' : Nat) : Prop where
  length : ∃ answer, readLength depth h db = some answer ∧ readLength depth h' after = some answer
  element : ∀ i, ∃ answer, readElement depth h i db = some answer ∧
    readElement depth h' i after = some answer

/-- Each handle reads after a commit what it read before, and so does a handle opened
on its object after the commit. -/
def CommitKeeps (depth : Nat) (db after : EdbDb) : Prop :=
  ∀ (h : Nat) (handle : ObjHandle), db.ctl.handles[h]? = some handle →
  SameReads depth db h after h ∧
    ∃ new reopened, edbArrayOpen handle.objId after = .ok new reopened ∧
    SameReads depth db h reopened new

/-- Every commit of a run returns and keeps what the handles read. -/
def RunDurable (depth : Nat) (db : EdbDb) : List ObjectOp → Prop
  | [] => True
  | op :: ops =>
      (op = .commit → ∃ after, Leaves after (edbTxnCommit depth db) ∧ CommitKeeps depth db after) ∧
        ∀ after, Leaves after (op.run depth db) → RunDurable depth after ops

/-- The books of a database, as its roots and its block table have them. -/
def dbLedger (db : EdbDb) : Ledger where
  nblocks := db.ctl.nblocks
  free := arrayWords db db.ctl.freelist
  objects := arrayWords db db.ctl.objlist
  objlist := db.ctl.objlist
  table := currentBlocks db

/-- The object of a handle, if there is one, is in a block that the open transaction
allocated. -/
def CreatedNow (db : EdbDb) (h : Nat) : Prop :=
  ∀ handle root, db.ctl.handles[h]? = some handle →
  (dbLedger db).objects[handle.objId]? = some root →
    (dbLedger db).table.get root = allocated

/-- The object of a handle, if there is one, takes another element without a page. -/
def RoomInRoot (db : EdbDb) (h : Nat) : Prop :=
  ∀ handle root, db.ctl.handles[h]? = some handle →
  (dbLedger db).objects[handle.objId]? = some root →
    arrayLength db root < smallCapacity (ptItemSize db root)

/-- The call writes only an object of the open transaction, no list outgrows its root,
and the transaction number does not reach the one that marks new handles. -/
def KeepsRoots (db : EdbDb) : ObjectOp → Prop
  | .begin | .abort => db.ctl.txnId + 1 < invalidTxnId
  | .commit => db.ctl.txnId + 1 < invalidTxnId ∧ (db.ctl.txn ≠ [] →
      (dbLedger db).free.length +
        ((dbLedger db).table.items.filterMap (dbLedger db).pushedFor).length ≤ 1021)
  | .create _ => db.ctl.txn ≠ [] → (dbLedger db).CreateFits
  | .reopen _ => True
  | .push h _ => db.ctl.txn ≠ [] → CreatedNow db h ∧ RoomInRoot db h
  | .pop h => db.ctl.txn ≠ [] → CreatedNow db h

/-- Every call of a run keeps the roots when it is made. -/
def RunKeepsRoots (depth : Nat) (db : EdbDb) : List ObjectOp → Prop
  | [] => True
  | op :: ops =>
      KeepsRoots db op ∧ ∀ after, Leaves after (op.run depth db) → RunKeepsRoots depth after ops

/-- The objects of a database, each in one block, and the handles on them. -/
structure Catalogue (db : EdbDb) (objects : List Nat) : Prop where
  listed : Stack (db.data db.ctl.objlist) objects
  arrays : ∀ root ∈ objects, ∃ size elems, InlineArray (db.data root) size elems
  current : ∀ handle ∈ db.ctl.handles, handle.txnId = db.ctl.txnId →
    objects[handle.objId]? = some handle.root
  past : ∀ handle ∈ db.ctl.handles, handle.txnId ≤ db.ctl.txnId ∨ handle.txnId = invalidTxnId
  number : db.ctl.txnId < invalidTxnId

variable {h depth root : Nat} {db after : EdbDb} {objects : List Nat} {handle : ObjHandle}
  {base books : Books}
  {l : Ledger}

namespace Catalogue

/-- The root of a handle's object, by the object list. -/
theorem leads (catalogue : Catalogue db objects) (found : db.ctl.handles[h]? = some handle)
    (there : objects[handle.objId]? = some root) :
    LeadsTo objects db.ctl.txnId handle.objId root handle := by
  refine ⟨rfl, ?_⟩
  by_cases same : db.ctl.txnId = handle.txnId
  · rw [if_pos same, ← catalogue.current handle (List.mem_of_getElem? found) same.symm, there]
  · rw [if_neg same, there]

/-- The refresh of a handle whose object exists. -/
theorem refresh (catalogue : Catalogue db objects) (api : BlockApi EdbDb)
    (found : db.ctl.handles[h]? = some handle) (there : objects[handle.objId]? = some root) :
    objRefresh api h db = .ok ⟨handle.objId, db.ctl.txnId, root⟩
      (db.withHandles (db.ctl.handles.set h ⟨handle.objId, db.ctl.txnId, root⟩)) :=
  objRefresh_leads api catalogue.listed found (catalogue.leads found there)

/-- The refresh of a handle on no object fails. -/
theorem refresh_fails (catalogue : Catalogue db objects) (api : BlockApi EdbDb)
    (found : db.ctl.handles[h]? = some handle) (absent : objects[handle.objId]? = none) :
    objRefresh api h db = .error errArrayIndexOutOfBounds db := by
  have looked : handleAt h db = .ok handle db := by
    unfold handleAt
    rw [found]
    rfl
  have stale : db.ctl.txnId ≠ handle.txnId := by
    intro same
    have listed := catalogue.current handle (List.mem_of_getElem? found) same.symm
    rw [absent] at listed
    cases listed
  have outside : arrayLength db db.ctl.objlist ≤ handle.objId := by
    have length : arrayLength db db.ctl.objlist = objects.length := catalogue.listed.length
    rw [length]
    exact List.getElem?_eq_none_iff.mp absent
  unfold objRefresh
  rw [Code.bind_ok looked, Code.gets_bind, if_pos stale, Code.gets_bind,
    Code.bind_error (arrayGet_outside api outside)]

/-- `obj_read` of a handle whose object exists. -/
theorem objRead_run (catalogue : Catalogue db objects) (api : BlockApi EdbDb)
    (found : db.ctl.handles[h]? = some handle) (there : objects[handle.objId]? = some root) :
    objRead api h db = .ok root
      (db.withHandles (db.ctl.handles.set h ⟨handle.objId, db.ctl.txnId, root⟩)) := by
  unfold objRead
  rw [Code.bind_ok (catalogue.refresh api found there)]
  rfl

/-- Other handles, all of this transaction or older. -/
theorem withHandles (catalogue : Catalogue db objects) {handles : List ObjHandle}
    (current : ∀ handle ∈ handles, handle.txnId = db.ctl.txnId →
      objects[handle.objId]? = some handle.root)
    (past : ∀ handle ∈ handles, handle.txnId ≤ db.ctl.txnId ∨ handle.txnId = invalidTxnId) :
    Catalogue (db.withHandles handles) objects :=
  ⟨catalogue.listed, catalogue.arrays, current, past, catalogue.number⟩

/-- A handle is refreshed. -/
theorem refreshed (catalogue : Catalogue db objects) (objId : Nat)
    (there : objects[objId]? = some root) :
    Catalogue (db.withHandles (db.ctl.handles.set h ⟨objId, db.ctl.txnId, root⟩)) objects := by
  refine catalogue.withHandles ?_ ?_
  · intro handle member same
    rcases List.mem_or_eq_of_mem_set member with old | rfl
    · exact catalogue.current handle old same
    · exact there
  · intro handle member
    rcases List.mem_or_eq_of_mem_set member with old | rfl
    · exact catalogue.past handle old
    · exact .inl (Nat.le_refl _)

/-- A handle is opened. -/
theorem reopened (catalogue : Catalogue db objects) (objId : Nat) :
    Catalogue (db.withHandles (db.ctl.handles ++ [⟨objId, invalidTxnId, 0⟩])) objects := by
  refine catalogue.withHandles ?_ ?_
  · intro handle member same
    rcases List.mem_append.mp member with old | new
    · exact catalogue.current handle old same
    · rw [List.mem_singleton.mp new] at same
      have below := catalogue.number
      simp only at same
      omega
  · intro handle member
    rcases List.mem_append.mp member with old | new
    · exact catalogue.past handle old
    · rw [List.mem_singleton.mp new]
      exact .inr rfl

/-- The next transaction number makes every handle stale. -/
theorem turned (catalogue : Catalogue db objects) {objects' : List Nat}
    (listed : Stack (after.data after.ctl.objlist) objects')
    (arrays : ∀ root ∈ objects', ∃ size elems, InlineArray (after.data root) size elems)
    (handles : after.ctl.handles = db.ctl.handles) (next : after.ctl.txnId = u32 (db.ctl.txnId + 1))
    (below : db.ctl.txnId + 1 < invalidTxnId) : Catalogue after objects' := by
  have small : db.ctl.txnId + 1 < 4294967296 := Nat.lt_trans below (by decide)
  rw [u32_of_lt small] at next
  refine ⟨listed, arrays, ?_, ?_, by rw [next]; exact below⟩
  · intro handle member same
    rw [handles] at member
    rw [next] at same
    rcases catalogue.past handle member with old | marked <;> omega
  · intro handle member
    rw [handles] at member
    rw [next]
    rcases catalogue.past handle member with old | marked
    · exact .inl (by omega)
    · exact .inr marked

/-- What a handle reads of an element. -/
theorem readElement_eq (catalogue : Catalogue db objects) (depth i : Nat)
    (found : db.ctl.handles[h]? = some handle) :
    readElement depth h i db = some (match objects[handle.objId]? with
      | none => .error errArrayIndexOutOfBounds
      | some root =>
          if i < arrayLength db root then
            .ok ((db.data root).slice (i * ptItemSize db root) (ptItemSize db root))
          else .error errArrayIndexOutOfBounds) := by
  unfold readElement edbArrayGet
  cases there : objects[handle.objId]? with
  | none =>
      have failed : objRead (edbApi depth) h db = .error errArrayIndexOutOfBounds db :=
        Code.bind_error (catalogue.refresh_fails (edbApi depth) found there)
      rw [Code.bind_error failed]
  | some root =>
      obtain ⟨size, elems, array⟩ := catalogue.arrays root (List.mem_of_getElem? there)
      rw [Code.bind_ok (catalogue.objRead_run (edbApi depth) found there)]
      by_cases inside : i < arrayLength db root
      · have count : ptNblocks
            (db.withHandles (db.ctl.handles.set h ⟨handle.objId, db.ctl.txnId, root⟩)) root = 0 :=
          array.count
        rw [arrayGet_inline (edbApi depth) count rfl inside]
        exact congrArg some (if_pos inside).symm
      · have outside : arrayLength
            (db.withHandles (db.ctl.handles.set h ⟨handle.objId, db.ctl.txnId, root⟩)) root ≤ i :=
          Nat.le_of_not_lt inside
        rw [arrayGet_outside (edbApi depth) outside]
        exact congrArg some (if_neg inside).symm

/-- What a handle reads of the length. -/
theorem readLength_eq (catalogue : Catalogue db objects) (depth : Nat)
    (found : db.ctl.handles[h]? = some handle) :
    readLength depth h db = some (match objects[handle.objId]? with
      | none => .error errArrayIndexOutOfBounds
      | some root => .ok (arrayLength db root)) := by
  unfold readLength edbArrayLength
  cases there : objects[handle.objId]? with
  | none =>
      have failed : objRead (edbApi depth) h db = .error errArrayIndexOutOfBounds db :=
        Code.bind_error (catalogue.refresh_fails (edbApi depth) found there)
      rw [Code.bind_error failed]
  | some root =>
      rw [Code.bind_ok (catalogue.objRead_run (edbApi depth) found there)]
      rfl

/-- Handles on one object read the same when the objects are the same. -/
theorem sameReads (catalogue : Catalogue db objects) (later : Catalogue after objects) {h' : Nat}
    {handle' : ObjHandle} (found : db.ctl.handles[h]? = some handle)
    (found' : after.ctl.handles[h']? = some handle')
    (number : handle'.objId = handle.objId)
    (data : ∀ root ∈ objects, after.data root = db.data root) :
    SameReads depth db h after h' := by
  refine ⟨⟨_, catalogue.readLength_eq depth found, ?_⟩, fun i =>
    ⟨_, catalogue.readElement_eq depth i found, ?_⟩⟩
  · rw [later.readLength_eq depth found', number]
    cases there : objects[handle.objId]? with
    | none => rfl
    | some root =>
        have same := data root (List.mem_of_getElem? there)
        simp only [arrayLength, same]
  · rw [later.readElement_eq depth i found', number]
    cases there : objects[handle.objId]? with
    | none => rfl
    | some root =>
        have same := data root (List.mem_of_getElem? there)
        have length : arrayLength after root = arrayLength db root :=
          congrArg (·.word lengthWord) same
        have size : ptItemSize after root = ptItemSize db root :=
          congrArg (fun image => (image itemSizeByte).toNat) same
        simp only [length, size, same]

/-- A write into the root of an object leaves a catalogue of the same objects. -/
theorem write (catalogue : Catalogue db objects) (apart : root ≠ db.ctl.objlist)
    {image : Image} {size : Nat}
    {elems : List (List UInt8)} (array : InlineArray image size elems) :
    Catalogue (db.write root image) objects := by
  refine ⟨?_, ?_, catalogue.current, catalogue.past, catalogue.number⟩
  · rw [Db.write_ctl, Db.write_data_of_ne (Ne.symm apart)]
    exact catalogue.listed
  · intro other member
    by_cases same : other = root
    · rw [same, Db.write_data_self]
      exact ⟨size, elems, array⟩
    · rw [Db.write_data_of_ne same]
      exact catalogue.arrays other member

end Catalogue

/-- The caller of the object functions holds no blocks of its own. -/
abbrev noBlocks : Client := ⟨[], [], [], []⟩

/-- A database between calls. The objects of begin stay the first ones in the object
list of the open transaction. -/
inductive Orderly (db : EdbDb) : Prop
  | closed {books : Books} (settled : Settled db books) (sound : books.Sound [] noBlocks.held)
      (catalogue : Catalogue db books.objects)
  | opened {base : Books} {l : Ledger} (tracks : Tracks db base l)
      (sound : l.Sound [] base noBlocks)
      (older : base.objects ⊆ l.objects) (catalogue : Catalogue db l.objects)

/-- The ledger read off the database is the one that tracks it. -/
theorem Tracks.dbLedger_eq (tracks : Tracks db base l) : dbLedger db = l := by
  have free : arrayWords db db.ctl.freelist = l.free := by
    rw [tracks.freelist]
    exact tracks.free.words
  have objects : arrayWords db db.ctl.objlist = l.objects := by
    rw [tracks.objlist]
    exact tracks.objects.words
  have table : currentBlocks db = l.table := currentBlocks_eq tracks.txn
  unfold dbLedger
  rw [free, objects, table, tracks.nblocks, tracks.objlist]

/-- Handles do not matter between transactions. -/
theorem Settled.withHandles (settled : Settled db books) (handles : List ObjHandle) :
    Settled (db.withHandles handles) books :=
  ⟨settled.serves.same_mapping rfl, settled.nblocks, settled.freelist, settled.objlist,
    settled.txn, settled.free, settled.objects⟩

/-- What a call leaves. -/
theorem Leaves.of_ok {α : Type} {outcome : Outcome EdbDb α} {value : α} {last : EdbDb}
    (leaves : Leaves after outcome) (ran : outcome = .ok value last) : after = last := by
  rw [ran] at leaves
  cases leaves
  rfl

/-- What a failed call leaves. -/
theorem Leaves.of_error {α : Type} {outcome : Outcome EdbDb α} {code : Int} {last : EdbDb}
    (leaves : Leaves after outcome) (ran : outcome = .error code last) : after = last := by
  rw [ran] at leaves
  cases leaves
  rfl

/-- A call leaves one state. -/
theorem Leaves.unique {α : Type} {outcome : Outcome EdbDb α} {last : EdbDb}
    (leaves : Leaves after outcome) (other : Leaves last outcome) : after = last := by
  cases other with
  | ok value => exact leaves.of_ok rfl
  | error code => exact leaves.of_error rfl

/-- A call without a result leaves none. -/
theorem Leaves.not_stuck {α : Type} {outcome : Outcome EdbDb α} (leaves : Leaves after outcome)
    (ran : outcome = .stuck) : False := by
  rw [ran] at leaves
  cases leaves

/-- The root of an object is a user block, and not the root of the object list. -/
theorem Ledger.Sound.object_root (sound : l.Sound [] base noBlocks) (member : root ∈ l.objects) :
    4 ≤ root ∧ root < l.nblocks ∧ root ≠ l.objlist := by
  have listed : root ∈ noBlocks.held ++ l.objects ++ [] := by simp [member]
  obtain ⟨user, inside⟩ := sound.user_range root listed
  refine ⟨user, inside, ?_⟩
  rcases sound.table.objlist with primary | ⟨copied, _⟩
  · omega
  · exact sound.ne_workingCopy copied listed

/-- A listed object lies above the fixed blocks and within the file. -/
theorem Books.Sound.object_root (sound : books.Sound [] noBlocks.held)
    (member : root ∈ books.objects) :
    4 ≤ root ∧ root < books.nblocks :=
  sound.partition.range root (by simp [member])

/-- How `obj_write` ends when the object of the handle is of the open transaction. -/
inductive WroteRoot (depth : Nat) (db : EdbDb) (h : Nat) : Prop
  | crashed (ran : objWrite (edbApi depth) h db = .stuck)
  | refused {code : Int} {last : EdbDb} (ran : objWrite (edbApi depth) h db = .error code last)
      (orderly : Orderly last)
  | root {base : Books} {l : Ledger} {handle : ObjHandle} {root : Nat} {handles : List ObjHandle}
      (ran : objWrite (edbApi depth) h db = .ok root (db.withHandles handles))
      (open_ : db.ctl.txn ≠ [])
      (found : db.ctl.handles[h]? = some handle)
      (there : (dbLedger db).objects[handle.objId]? = some root)
      (tracks : Tracks (db.withHandles handles) base l) (sound : l.Sound [] base noBlocks)
      (older : base.objects ⊆ l.objects) (member : root ∈ l.objects)
      (catalogue : Catalogue (db.withHandles handles) l.objects)

namespace Orderly

/-- `obj_write` on an object of the open transaction ends in one of these ways. -/
theorem objWrite_cases (orderly : Orderly db)
    (created : db.ctl.txn ≠ [] → CreatedNow db h) (depth : Nat) :
    WroteRoot (depth + 1) db h := by
  cases found : db.ctl.handles[h]? with
  | none =>
      refine .crashed (Code.bind_stuck (Code.bind_stuck ?_))
      unfold handleAt
      rw [found]
      rfl
  | some handle =>
      cases orderly with
      | closed settled sound catalogue =>
          rename_i books
          cases there : books.objects[handle.objId]? with
          | none =>
              exact .refused
                (Code.bind_error (catalogue.refresh_fails (edbApi (depth + 1)) found there))
                (.closed settled sound catalogue)
          | some root =>
              let handles := db.ctl.handles.set h ⟨handle.objId, db.ctl.txnId, root⟩
              have closed : (db.withHandles handles).ctl.txn = [] := settled.txn
              have ran : objWrite (edbApi (depth + 1)) h db =
                  .error edbErrTxnNoTransaction (db.withHandles handles) := by
                unfold objWrite
                rw [Code.bind_ok (catalogue.refresh (edbApi (depth + 1)) found there)]
                exact Code.bind_error (edbApi_modify_refuses depth root closed)
              exact .refused ran
                (.closed (settled.withHandles _) sound (catalogue.refreshed handle.objId there))
      | opened tracks sound older catalogue =>
          rename_i base l
          cases there : l.objects[handle.objId]? with
          | none =>
              exact .refused
                (Code.bind_error (catalogue.refresh_fails (edbApi (depth + 1)) found there))
                (.opened tracks sound older catalogue)
          | some root =>
              have open_ : db.ctl.txn ≠ [] := by
                rw [tracks.txn]
                exact List.cons_ne_nil _ _
              have listed : (dbLedger db).objects[handle.objId]? = some root := by
                rw [tracks.dbLedger_eq]
                exact there
              have state : l.table.get root = allocated := by
                have now := created open_ handle root found listed
                rwa [tracks.dbLedger_eq] at now
              let handles := db.ctl.handles.set h ⟨handle.objId, db.ctl.txnId, root⟩
              have used : l.table.get root ≠ 0 := by rw [state]; decide
              have usable : l.table.get root ≠ freed := by rw [state]; decide
              have modified :=
                (tracks.withHandles handles).modify_run_same sound.table.wf depth used usable
              have again : handles.set h ⟨handle.objId, db.ctl.txnId, root⟩ = handles :=
                List.set_set _
              refine .root ?_ open_ found listed (tracks.withHandles handles) sound older
                (List.mem_of_getElem? there) (catalogue.refreshed handle.objId there)
              unfold objWrite
              rw [Code.bind_ok (catalogue.refresh (edbApi (depth + 1)) found there),
                Code.bind_ok modified]
              change Outcome.ok root (db.withHandles (handles.set h _)) = _
              rw [again]

/-- `edb_txn_begin`. -/
theorem begin_step (orderly : Orderly db) (below : db.ctl.txnId + 1 < invalidTxnId)
    (leaves : Leaves after (edbTxnBegin (depth + 1) db)) : Orderly after := by
  cases orderly with
  | closed settled sound catalogue =>
      obtain ⟨next, ran, tracks, handles, number, data⟩ := settled.begin_run sound (depth + 1)
      cases leaves.of_ok ran
      refine .opened tracks sound.begun.2 (fun _ member =>
        member) (catalogue.turned ?_ ?_ handles number below)
      · rw [tracks.objlist]
        exact tracks.objects
      · intro root member
        rw [data root (by have := sound.object_root member; omega)]
        exact catalogue.arrays root member
  | opened tracks sound older catalogue =>
      cases leaves.of_error (tracks.begin_run sound depth)
      exact .opened tracks sound older catalogue

/-- `edb_array_create`. -/
theorem create_step (orderly : Orderly db) (fits : db.ctl.txn ≠ [] → (dbLedger db).CreateFits)
    (itemSize : UInt8)
    (leaves : Leaves after (dropped (edbArrayCreate (depth + 2) itemSize.toNat) db)) :
    Orderly after := by
  cases orderly with
  | closed settled sound catalogue =>
      have refused :
          edbArrayCreate (depth + 2) itemSize.toNat db = .error edbErrTxnNoTransaction db := by
        refine Code.bind_error ?_
        unfold objCreate
        rw [Code.gets_bind, Code.bind_error (edbApi_modify_refuses (depth + 1) _ settled.txn)]
      cases leaves.of_error (Code.bind_error refused)
      exact .closed settled sound catalogue
  | opened tracks sound older catalogue =>
      rename_i base l
      have createFits : l.CreateFits := by
        rw [← tracks.dbLedger_eq]
        exact fits (by rw [tracks.txn]; exact List.cons_ne_nil _ _)
      obtain ⟨next, ran, tracked, handles, number, data, kept⟩ :=
        tracks.create_run sound depth itemSize.toNat createFits
      obtain ⟨objects, _⟩ := sound.created createFits
      cases leaves.of_ok (Code.bind_ok ran)
      have listed : Stack (after.data after.ctl.objlist) l.create.2.objects := by
        rw [tracked.objlist]
        exact tracked.objects
      refine .opened tracked (sound.create createFits) ?_ ⟨listed, ?_, ?_,
        ?_, by rw [number]; exact catalogue.number⟩
      · rw [objects]
        exact fun block member => List.mem_append_left _ (older member)
      · intro root member
        by_cases new : root = l.create.1
        · rw [new, data]
          exact ⟨itemSize.toNat, [], .empty itemSize.toNat_lt⟩
        by_cases copy : root = l.create.2.objlist
        · rw [copy]
          exact ⟨4, _, tracked.objects.array⟩
        · have old : root ∈ l.objects := by
            rw [objects] at member
            exact (List.mem_append.mp member).resolve_right (fun last =>
              new (List.mem_singleton.mp last))
          have place := sound.object_root old
          rw [kept root (by omega) new copy place.2.1]
          exact catalogue.arrays root old
      · intro handle member same
        rw [handles] at member
        rw [number] at same
        rw [objects]
        rcases List.mem_append.mp member with old | fresh
        · have before := catalogue.current handle old same
          rw [List.getElem?_append_left (List.getElem?_eq_some_iff.mp before).1, before]
        · rw [List.mem_singleton.mp fresh]
          exact List.getElem?_concat_length
      · intro handle member
        rw [handles] at member
        rw [number]
        rcases List.mem_append.mp member with old | fresh
        · exact catalogue.past handle old
        · rw [List.mem_singleton.mp fresh]
          exact .inl (Nat.le_refl _)

/-- `edb_array_open`. -/
theorem reopen_step (orderly : Orderly db) (objId : Nat)
    (leaves : Leaves after (dropped (edbArrayOpen objId) db)) :
    Orderly after := by
  cases leaves.of_ok (Code.bind_ok (newHandle_run _ db))
  cases orderly with
  | closed settled sound catalogue =>
      exact .closed (settled.withHandles _) sound (catalogue.reopened objId)
  | opened tracks sound older catalogue =>
      exact .opened (tracks.withHandles _) sound older (catalogue.reopened objId)

/-- `edb_array_push` into an object of the open transaction. -/
theorem push_step (orderly : Orderly db) (created : db.ctl.txn ≠ [] → CreatedNow db h)
    (room : db.ctl.txn ≠ [] → RoomInRoot db h) (buffer : Image)
    (leaves : Leaves after (edbArrayPush (depth + 1) h buffer db)) : Orderly after := by
  unfold edbArrayPush at leaves
  cases orderly.objWrite_cases created depth with
  | crashed ran => exact (leaves.not_stuck (Code.bind_stuck ran)).elim
  | refused ran kept =>
      cases leaves.of_error (Code.bind_error ran)
      exact kept
  | root ran open_ found there tracks sound older member catalogue =>
      rename_i base l handle root handles
      obtain ⟨size, elems, array⟩ := catalogue.arrays root member
      have place := sound.object_root member
      have fits : elems.length < 4084 / size := by
        have inside := room open_ handle root found there
        have length : arrayLength db root = elems.length := array.length
        have itemSize : ptItemSize db root = size := array.itemSize
        rwa [length, itemSize] at inside
      have positive : 0 < size := by
        rcases Nat.eq_zero_or_pos size with zero | positive
        · rw [zero, Nat.div_zero] at fits
          omega
        · exact positive
      obtain ⟨image, pushed, longer⟩ := array.push (edbApi (depth + 1)) positive fits buffer
      rw [Code.bind_ok ran] at leaves
      cases leaves.of_ok pushed
      have apart : root ≠ (db.withHandles handles).ctl.objlist := by
        rw [tracks.objlist]
        exact place.2.2
      exact .opened (tracks.write place.1 place.2.2 image) sound older
        (catalogue.write apart longer)

/-- `edb_array_pop` from an object of the open transaction. -/
theorem pop_step (orderly : Orderly db) (created : db.ctl.txn ≠ [] → CreatedNow db h)
    (leaves : Leaves after (dropped (edbArrayPop (depth + 1) h) db)) : Orderly after := by
  unfold edbArrayPop at leaves
  cases orderly.objWrite_cases created depth with
  | crashed ran => exact (leaves.not_stuck (Code.bind_stuck (Code.bind_stuck ran))).elim
  | refused ran kept =>
      cases leaves.of_error (Code.bind_error (Code.bind_error ran))
      exact kept
  | root ran open_ found there tracks sound older member catalogue =>
      rename_i base l handle root handles
      obtain ⟨size, elems, array⟩ := catalogue.arrays root member
      have place := sound.object_root member
      rcases List.eq_nil_or_concat' elems with none | ⟨rest, last, split⟩
      · -- the index below the first one is outside
        have outside : arrayLength (db.withHandles handles) root ≤ sub32 0 1 := by
          have length : arrayLength (db.withHandles handles) root = elems.length := array.length
          rw [length, none]
          exact Nat.zero_le _
        have zero : ((db.withHandles handles).data root).word lengthWord = 0 := by
          rw [none] at array
          exact array.length
        have failed : arrayPop (edbApi (depth + 1)) root (db.withHandles handles) =
            .error errArrayIndexOutOfBounds (db.withHandles handles) := by
          unfold arrayPop
          rw [load_bind, zero]
          exact Code.bind_error (arrayGet_outside (edbApi (depth + 1)) outside)
        cases leaves.of_error (Code.bind_error ((Code.bind_ok ran).trans failed))
        exact .opened tracks sound older catalogue
      · rw [split] at array
        obtain ⟨image, popped, shorter⟩ := array.pop (edbApi (depth + 1))
        cases leaves.of_ok (Code.bind_ok ((Code.bind_ok ran).trans popped))
        have apart : root ≠ (db.withHandles handles).ctl.objlist := by
          rw [tracks.objlist]
          exact place.2.2
        exact .opened (tracks.write place.1 place.2.2 image) sound older
          (catalogue.write apart shorter)

/-- `edb_txn_abort`. -/
theorem abort_step (orderly : Orderly db) (below : db.ctl.txnId + 1 < invalidTxnId)
    (leaves : Leaves after (edbTxnAbort (depth + 1) db)) : Orderly after := by
  cases orderly with
  | closed settled sound catalogue =>
      have refused : edbTxnAbort (depth + 1) db = .error edbErrTxnNoTransaction db := by
        unfold edbTxnAbort
        rw [Code.bind_ok (requireWritable_run settled.serves)]
        exact Code.bind_error (requireTxn_none settled.txn)
      cases leaves.of_error refused
      exact .closed settled sound catalogue
  | opened tracks sound older catalogue =>
      obtain ⟨next, ran, settled, handles, number, data⟩ := tracks.abort_run sound (depth + 1)
      cases leaves.of_ok ran
      refine .closed settled sound.begun (catalogue.turned ?_ ?_ handles number below)
      · rw [settled.objlist]
        exact settled.objects
      · intro root member
        rw [data root (sound.begun.object_root member).2]
        exact catalogue.arrays root (older member)

/-- Reading through a handle before a call and through it or a new handle after it, when
the call leaves the objects alone. -/
theorem keeps (catalogue : Catalogue db objects) (later : Catalogue after objects)
    (handles : after.ctl.handles = db.ctl.handles)
    (data : ∀ root ∈ objects, after.data root = db.data root)
    (depth : Nat) : CommitKeeps depth db after := by
  intro h handle found
  have found' : after.ctl.handles[h]? = some handle := by
    rw [handles]
    exact found
  exact ⟨catalogue.sameReads later found found' rfl data, _, _, newHandle_run _ after,
    catalogue.sameReads (later.reopened handle.objId) found List.getElem?_concat_length rfl data⟩

/-- `edb_txn_commit`. -/
theorem commit_step (orderly : Orderly db) (keeps : KeepsRoots db .commit) (depth : Nat) :
    ∃ last, Leaves last (edbTxnCommit (depth + 1) db) ∧
    CommitKeeps (depth + 1) db last ∧ Orderly last := by
  obtain ⟨below, fits⟩ := keeps
  cases orderly with
  | closed settled sound catalogue =>
      have refused : edbTxnCommit (depth + 1) db = .error edbErrTxnNoTransaction db := by
        unfold edbTxnCommit
        rw [Code.bind_ok (requireWritable_run settled.serves)]
        exact Code.bind_error (requireTxn_none settled.txn)
      rw [refused]
      exact ⟨db, .error _, Orderly.keeps catalogue catalogue rfl (fun _ _ => rfl) _,
        .closed settled sound catalogue⟩
  | opened tracks sound older catalogue =>
      rename_i base l
      have open_ : db.ctl.txn ≠ [] := by
        rw [tracks.txn]
        exact List.cons_ne_nil _ _
      have room := fits open_
      rw [tracks.dbLedger_eq] at room
      obtain ⟨next, ran, settled, handles, number, data⟩ := tracks.commit_run sound depth room
      have same : ∀ root ∈ l.objects, next.data root = db.data root :=
        fun root member => data root (sound.object_root member).1
      have later : Catalogue next l.objects := by
        refine catalogue.turned ?_ ?_ handles number below
        · rw [settled.objlist]
          exact settled.objects
        · intro root member
          rw [same root member]
          exact catalogue.arrays root member
      rw [ran]
      exact ⟨next, .ok (), Orderly.keeps catalogue later handles same _,
        .closed settled sound.commit later⟩

/-- One call. -/
theorem step (orderly : Orderly db) {op : ObjectOp} (keeps : KeepsRoots db op)
    (leaves : Leaves after (op.run (depth + 2) db)) : Orderly after := by
  cases op with
  | begin => exact orderly.begin_step keeps leaves
  | create itemSize => exact orderly.create_step keeps itemSize leaves
  | reopen objId => exact orderly.reopen_step objId leaves
  | push h buffer =>
      exact orderly.push_step (fun open_ => (keeps open_).1) (fun open_ =>
        (keeps open_).2) buffer leaves
  | pop h => exact orderly.pop_step keeps leaves
  | commit =>
      obtain ⟨last, left, _, kept⟩ := orderly.commit_step keeps (depth + 1)
      rwa [leaves.unique left]
  | abort => exact orderly.abort_step keeps leaves

/-- A run. -/
theorem run_durable (orderly : Orderly db) (depth : Nat) (ops : List ObjectOp)
    (keeps : RunKeepsRoots (depth + 2) db ops) : RunDurable (depth + 2) db ops := by
  induction ops generalizing db with
  | nil => trivial
  | cons op ops later =>
      obtain ⟨now, rest⟩ := keeps
      refine ⟨?_, fun after leaves => later (orderly.step now leaves) (rest after leaves)⟩
      rintro rfl
      obtain ⟨last, leaves, kept, _⟩ := orderly.commit_step now (depth + 1)
      exact ⟨last, leaves, kept⟩

/-- A new database. -/
theorem fresh {os : Os} (succeeds : os.Succeeds)
    (opened : edbOpenNew (newFile os) = .ok () db) : Orderly db := by
  obtain ⟨made, ran, settled, handles, number⟩ := edbOpenNew_run succeeds
  rw [opened] at ran
  cases ran
  refine .closed settled ⟨Nat.le_refl _, by decide, ?_⟩ ⟨?_, nofun, ?_, ?_, ?_⟩
  · intro block
    have none : ¬(4 ≤ block ∧ block < 4) := by omega
    exact (if_neg none).symm
  · rw [settled.objlist]
    exact settled.objects
  · rw [handles]
    exact nofun
  · rw [handles]
    exact nofun
  · rw [number]
    decide

end Orderly

/-- In every run of a new database whose calls write objects of the open transaction
only, every commit keeps what the handles read. -/
theorem commits_durable {os : Os} (succeeds : os.Succeeds)
    (opened : edbOpenNew (newFile os) = .ok () db)
    (depth : Nat) (ops : List ObjectOp) (keeps : RunKeepsRoots (depth + 2) db ops) :
    RunDurable (depth + 2) db ops :=
  (Orderly.fresh succeeds opened).run_durable depth ops keeps

instance (l : Ledger) : Decidable l.CreateFits :=
  decidable_of_iff ((l.table.get l.objlist = 0 → takesFit 1 l.free.length l.nblocks) ∧
    takesFit 1 l.openObjlist.free.length l.openObjlist.nblocks ∧ l.objects.length < 1021)
    ⟨fun fits => ⟨fits.1, fits.2.1, fits.2.2⟩, fun fits => ⟨fits.opens, fits.allocates, fits.lists⟩⟩

instance (db : EdbDb) (h : Nat) : Decidable (CreatedNow db h) :=
  decidable_of_iff (∀ handle ∈ db.ctl.handles[h]?, ∀ root ∈ (dbLedger db).objects[handle.objId]?,
      (dbLedger db).table.get root = allocated)
    ⟨fun all handle root found there => all handle found root there,
      fun all handle found root there => all handle root found there⟩

instance (db : EdbDb) (h : Nat) : Decidable (RoomInRoot db h) :=
  decidable_of_iff (∀ handle ∈ db.ctl.handles[h]?, ∀ root ∈ (dbLedger db).objects[handle.objId]?,
      arrayLength db root < smallCapacity (ptItemSize db root))
    ⟨fun all handle root found there => all handle found root there,
      fun all handle found root there => all handle root found there⟩

instance (db : EdbDb) : ∀ op, Decidable (KeepsRoots db op)
  | .begin | .abort => inferInstanceAs (Decidable (_ < _))
  | .commit => inferInstanceAs (Decidable (_ ∧ (_ → _)))
  | .create _ => inferInstanceAs (Decidable (_ → _))
  | .reopen _ => inferInstanceAs (Decidable True)
  | .push _ _ => inferInstanceAs (Decidable (_ → _ ∧ _))
  | .pop _ => inferInstanceAs (Decidable (_ → _))

/-- Follow a run and check each call. -/
def checkRoots (depth : Nat) (db : EdbDb) : List ObjectOp → Bool
  | [] => true
  | op :: ops =>
      decide (KeepsRoots db op) &&
        match op.run depth db with
        | .ok _ after => checkRoots depth after ops
        | .error _ after => checkRoots depth after ops
        | .stuck => true

/-- A run that passes the check meets the condition. -/
theorem RunKeepsRoots.of_check (depth : Nat) (ops : List ObjectOp)
    (checked : checkRoots depth db ops = true) :
    RunKeepsRoots depth db ops := by
  induction ops generalizing db with
  | nil => trivial
  | cons op ops later =>
      unfold checkRoots at checked
      rw [Bool.and_eq_true, decide_eq_true_eq] at checked
      obtain ⟨now, rest⟩ := checked
      refine ⟨now, fun after leaves => ?_⟩
      cases ran : op.run depth db with
      | ok value last =>
          rw [ran] at rest
          rw [leaves.of_ok ran]
          exact later rest
      | error code last =>
          rw [ran] at rest
          rw [leaves.of_error ran]
          exact later rest
      | stuck => exact (leaves.not_stuck ran).elim

/-- Two objects, and one element that stays after it was pushed and another popped. -/
theorem commits_durable_created : ∃ db, edbOpenNew (newFile grantingOs) = .ok () db ∧
    RunDurable 2 db [.begin, .create 4, .push 0 (Image.ofWord 7), .push 0 (Image.ofWord 8),
      .create 2, .pop 0, .commit, .reopen 0, .begin, .abort] := by
  have run : (edbOpenNew (newFile grantingOs)).passes (fun _ db => checkRoots 2 db
      [.begin, .create 4, .push 0 (Image.ofWord 7), .push 0 (Image.ofWord 8), .create 2, .pop 0,
        .commit, .reopen 0, .begin, .abort]) = true := by
    decide +kernel
  obtain ⟨value, db, opened, checked⟩ := Outcome.of_passes run
  exact ⟨db, opened,
    commits_durable grantingOs_succeeds opened 0 _ (RunKeepsRoots.of_check 2 _ checked)⟩

/-- What a run of calls that all return 0 leaves. -/
def runAll (depth : Nat) : List ObjectOp → Code EdbDb Unit
  | [] => pure ()
  | op :: ops => op.run depth >>= fun _ => runAll depth ops

/-- The rest of a durable run, from where its first part has ended. -/
theorem RunDurable.rest (depth : Nat) (first : List ObjectOp) {rest : List ObjectOp}
    (durable : RunDurable depth db (first ++ rest)) (ran : runAll depth first db = .ok () after) :
    RunDurable depth after rest := by
  induction first generalizing db with
  | nil =>
      cases ran
      exact durable
  | cons op first later =>
      obtain ⟨_, middle, called, ended⟩ := Code.of_bind_ok ran
      exact later (durable.2 middle (called ▸ .ok _)) ended

/-- An element pushed into an object of an earlier transaction is read before the commit
and not after it. -/
theorem commit_loses_push : ∃ db, edbOpenNew (newFile grantingOs) = .ok () db ∧
    ¬RunDurable 3 db [.begin, .create 4, .commit, .begin, .push 0 (Image.ofWord 7), .commit] := by
  have run : (edbOpenNew (newFile grantingOs)).passes (fun _ db =>
      (runAll 3 [.begin, .create 4, .commit, .begin, .push 0 (Image.ofWord 7)] db).passes
      (fun _ before =>
        before.ctl.handles.length == 1 && (edbArrayLength 3 0 before).passes (fun length _ =>
          length == 1) &&
        (edbTxnCommit 3 before).passes (fun _ after =>
          (edbArrayLength 3 0 after).passes (fun length _ => length == 0)))) = true := by
    decide +kernel
  obtain ⟨_, db, opened, holds⟩ := Outcome.of_passes run
  obtain ⟨_, before, reached, reads⟩ := Outcome.of_passes holds
  rw [Bool.and_eq_true, Bool.and_eq_true, beq_iff_eq] at reads
  obtain ⟨⟨one, first⟩, second⟩ := reads
  obtain ⟨pushed, _, readBefore, isOne⟩ := Outcome.of_passes first
  obtain ⟨_, after, committed, lost⟩ := Outcome.of_passes second
  obtain ⟨left, _, readAfter, isZero⟩ := Outcome.of_passes lost
  refine ⟨db, opened, fun durable => ?_⟩
  obtain ⟨last, leaves, kept⟩ :=
    (RunDurable.rest 3 [.begin, .create 4, .commit, .begin, .push 0 (Image.ofWord 7)]
    durable reached).1 rfl
  cases leaves.of_ok committed
  have found : before.ctl.handles[0]? = some before.ctl.handles[0] :=
    List.getElem?_eq_getElem (by omega)
  obtain ⟨answer, same, sameAfter⟩ := (kept 0 _ found).1.length
  have lengthBefore : readLength 3 0 before = some (.ok pushed) := by
    unfold readLength
    rw [readBefore]
  have lengthAfter : readLength 3 0 after = some (.ok left) := by
    unfold readLength
    rw [readAfter]
  rw [lengthBefore] at same
  rw [lengthAfter] at sameAfter
  rw [beq_iff_eq] at isOne isZero
  rw [isOne] at same
  rw [isZero, ← same] at sameAfter
  cases sameAfter

end EverDb
