import EverDb.Array.Purity
import EverDb.Edb.Open

/-!
# Opening a file read-only

`edb_open` drops the caller's `readonly`: the assignment inside its condition
clears it. Only the mapping keeps it, since `io_open` has made that one before. So the
transaction functions never answer `EDB_ERROR_READ_ONLY`: `edb_txn_begin` is killed at
its first store into the mapping, and the others find no transaction. What keeps the
other functions from writing is that no transaction is open.
-/

namespace EverDb

open Foundation

/-- The calls of the public interface on an open database, with their arguments. -/
inductive ApiCall where
  | close
  | txnBegin
  | txnCommit
  | txnAbort
  | allocateBlock
  | modifyBlock (block : Nat)
  | freeBlock (block : Nat)
  | arrayCreate (itemSize : UInt8)
  | arrayOpen (objId : Nat)
  | arrayGet (h index : Nat)
  | arraySet (h index : Nat)
  | arrayPush (h : Nat) (buffer : Image)
  | arrayPop (h : Nat)
  | arrayLength (h : Nat)
  | arrayCapacity (h : Nat)

/-- A call whose value the caller drops. -/
def dropped {α : Type} (call : Code EdbDb α) : Code EdbDb Unit := do
  let _ ← call
  pure ()

namespace ApiCall

/-- Make the call. -/
def run (depth : Nat) : ApiCall → Code EdbDb Unit
  | close => edbClose
  | txnBegin => edbTxnBegin depth
  | txnCommit => edbTxnCommit depth
  | txnAbort => edbTxnAbort depth
  | allocateBlock => dropped (edbAllocateBlock depth)
  | modifyBlock block => dropped (edbModifyBlock depth block)
  | freeBlock block => edbFreeBlock depth block
  | arrayCreate itemSize => dropped (edbArrayCreate depth itemSize.toNat)
  | arrayOpen objId => dropped (edbArrayOpen objId)
  | arrayGet h index => dropped (edbArrayGet depth h index)
  | arraySet h index => dropped (edbArraySet depth h index)
  | arrayPush h buffer => edbArrayPush depth h buffer
  | arrayPop h => dropped (edbArrayPop depth h)
  | arrayLength h => dropped (edbArrayLength depth h)
  | arrayCapacity h => dropped (edbArrayCapacity depth h)

/-- What a read-only database owes its caller: the transaction functions, the calls
that would write, and those that only read. -/
inductive Kind where
  | transaction
  | writing
  | reading
deriving DecidableEq, Repr

/-- What a read-only database is to answer to a call. -/
def kind : ApiCall → Kind
  | txnBegin | txnCommit | txnAbort => .transaction
  | allocateBlock | modifyBlock _ | freeBlock _ | arrayCreate _ | arraySet _ _ |
      arrayPush _ _ | arrayPop _ =>
      .writing
  | close | arrayOpen _ | arrayGet _ _ | arrayLength _ | arrayCapacity _ => .reading

end ApiCall

/-- Where a call leaves the database, whatever it returns. -/
inductive Leaves {σ α : Type} (after : σ) : Outcome σ α → Prop
  | ok (value : α) : Leaves after (.ok value after)
  | error (code : Int) : Leaves after (.error code after)

/-- The database that a call leaves to the next one. A successful `edb_close` has freed it. -/
def ApiCall.Leads (depth : Nat) (db : EdbDb) (call : ApiCall) (after : EdbDb) : Prop :=
  Leaves after (call.run depth db) ∧ (call = .close → ∃ code, call.run depth db = .error code after)

/-- A read-only database answers as it should: with `EDB_ERROR_READ_ONLY` to the
transaction functions, with an error to a call that would write, and without a
byte written. -/
def KeptReadOnly (db : EdbDb) (outcome : Outcome EdbDb Unit) : ApiCall.Kind → Prop
  | .transaction => ∃ after, outcome = .error edbErrorReadOnly after ∧ after.data = db.data
  | .writing => ∃ code after, outcome = .error code after ∧ after.data = db.data
  | .reading => ∀ after, Leaves after outcome → after.data = db.data

/-- Every call of a sequence is answered as a read-only database should. -/
def RunReadOnly (depth : Nat) (db : EdbDb) : List ApiCall → Prop
  | [] => True
  | call :: calls =>
      KeptReadOnly db (call.run depth db) call.kind ∧
        ∀ after, call.Leads depth db after → RunReadOnly depth after calls

/-- No call of a sequence writes a byte of any block. -/
def RunUnwritten (depth : Nat) (db : EdbDb) : List ApiCall → Prop
  | [] => True
  | call :: calls =>
      (∀ after, Leaves after (call.run depth db) → after.data = db.data) ∧
        ∀ after, call.Leads depth db after → RunUnwritten depth after calls

/-- The root of a handle's object is at hand: the handle was used before, or there is no
such object, or the object list lies in its root. -/
def RootAtHand (db : EdbDb) (handle : ObjHandle) : Prop :=
  handle.txnId = db.ctl.txnId ∨ arrayLength db db.ctl.objlist ≤ handle.objId ∨
    ptNblocks db db.ctl.objlist = 0

/-- The calls that no transaction is needed to refuse. -/
def Refusable (db : EdbDb) : ApiCall → Prop
  | .txnBegin | .txnCommit | .txnAbort => False
  | .arraySet h _ | .arrayPush h _ | .arrayPop h =>
      ∃ handle, db.ctl.handles[h]? = some handle ∧ RootAtHand db handle
  | _ => True

/-- Every call of a sequence is refusable when it is made. -/
def RunRefusable (depth : Nat) (db : EdbDb) : List ApiCall → Prop
  | [] => True
  | call :: calls =>
      Refusable db call ∧ ∀ after, call.Leads depth db after → RunRefusable depth after calls

/-- Open for writing, whatever the mapping allows, and outside a transaction. -/
structure Unarmed (protWrite : Bool) (db : EdbDb) : Prop where
  writable : db.ctl.readonly = false
  mapping : db.ctl.protWrite = protWrite
  freelist : db.ctl.freelist = edbFreelistPrimary
  objlist : db.ctl.objlist = edbObjlist
  closed : db.ctl.txn = []

variable {protWrite : Bool} {db after : EdbDb} {depth : Nat} {α β : Type}

/-- A call that leaves the bytes alone and opens no transaction. -/
def Idles (call : Code EdbDb α) : Prop :=
  ∀ protWrite db after, Unarmed protWrite db → Leaves after (call db) →
    after.data = db.data ∧ Unarmed protWrite after

namespace Idles

/-- One call after the other. -/
theorem bind {call : Code EdbDb α} {next : α → Code EdbDb β} (first : Idles call)
    (rest : ∀ value, Idles (next value)) : Idles (call >>= next) := by
  intro protWrite db after unarmed leaves
  cases ran : call db with
  | ok value middle =>
      rw [Code.bind_ok ran] at leaves
      obtain ⟨same, still⟩ := first protWrite db middle unarmed (ran ▸ .ok value)
      obtain ⟨sameAfter, stillAfter⟩ := rest value protWrite middle after still leaves
      exact ⟨sameAfter.trans same, stillAfter⟩
  | error code middle =>
      rw [Code.bind_error ran] at leaves
      cases leaves
      exact first protWrite db after unarmed (ran ▸ .error code)
  | stuck =>
      rw [Code.bind_stuck ran] at leaves
      cases leaves

/-- Both branches of a condition. -/
theorem ite {condition : Prop} [Decidable condition] {left right : Code EdbDb α}
    (first : Idles left) (second : Idles right) : Idles (if condition then left else right) := by
  split
  · exact first
  · exact second

/-- Returning a value. -/
theorem pure (value : α) : Idles (Pure.pure value : Code EdbDb α) := by
  intro protWrite db after unarmed leaves
  cases leaves
  exact ⟨rfl, unarmed⟩

/-- Reading the state. -/
theorem gets (read : EdbDb → α) : Idles (Code.gets read) := by
  intro protWrite db after unarmed leaves
  cases leaves
  exact ⟨rfl, unarmed⟩

/-- Returning an error code. -/
theorem fail (code : Int) : Idles (Code.fail code : Code EdbDb α) := by
  intro protWrite db after unarmed leaves
  cases leaves
  exact ⟨rfl, unarmed⟩

/-- A failure that ends in `abort()`. -/
theorem orAbort {call : Code EdbDb α} (idles : Idles call) : Idles (EverDb.orAbort call) := by
  intro protWrite db after unarmed leaves
  unfold EverDb.orAbort at leaves
  cases ran : call db with
  | ok value middle =>
      rw [ran] at leaves
      cases leaves
      exact idles protWrite db after unarmed (ran ▸ .ok value)
  | error code middle =>
      rw [ran] at leaves
      cases leaves
  | stuck =>
      rw [ran] at leaves
      cases leaves

/-- A division. -/
theorem divide (left right : Nat) : Idles (EverDb.divide left right : Code EdbDb Nat) := by
  unfold EverDb.divide
  split
  · intro protWrite db after unarmed leaves
    cases leaves
  · exact pure _

/-- Reading a handle. -/
theorem handleAt (h : Nat) : Idles (EverDb.handleAt h) := by
  intro protWrite db after unarmed leaves
  unfold EverDb.handleAt at leaves
  cases found : db.ctl.handles[h]? with
  | none =>
      rw [found] at leaves
      cases leaves
  | some handle =>
      rw [found] at leaves
      cases leaves
      exact ⟨rfl, unarmed⟩

/-- Writing a handle: handles are not blocks. -/
theorem setHandle (h : Nat) (handle : ObjHandle) : Idles (EverDb.setHandle h handle) := by
  intro protWrite db after unarmed leaves
  cases leaves
  exact ⟨rfl, unarmed.writable, unarmed.mapping, unarmed.freelist, unarmed.objlist, unarmed.closed⟩

/-- Adding a handle. -/
theorem newHandle (handle : ObjHandle) : Idles (EverDb.newHandle handle) := by
  intro protWrite db after unarmed leaves
  cases leaves
  exact ⟨rfl, unarmed.writable, unarmed.mapping, unarmed.freelist, unarmed.objlist, unarmed.closed⟩

end Idles

/-- Outside a transaction the block functions refuse. -/
theorem edbApi_allocate_refuses (depth : Nat) (closed : db.ctl.txn = []) :
    (edbApi (depth + 1)).allocate db = .error edbErrTxnNoTransaction db :=
  Code.bind_error (requireTxn_none closed)

/-- Outside a transaction `edb_modify_block` refuses as soon as it looks for one. -/
theorem edbApi_modify_refuses (depth block : Nat) (closed : db.ctl.txn = []) :
    (edbApi (depth + 1)).modify block db = .error edbErrTxnNoTransaction db :=
  Code.bind_error (requireTxn_none closed)

/-- Outside a transaction `edb_free_block` refuses as soon as it looks for one. -/
theorem edbApi_free_refuses (depth block : Nat) (closed : db.ctl.txn = []) :
    (edbApi (depth + 1)).free block db = .error edbErrTxnNoTransaction db :=
  Code.bind_error (requireTxn_none closed)

/-- Outside a transaction `edb_modify_block` writes nothing. -/
theorem Idles.modify (depth block : Nat) : Idles ((edbApi (depth + 1)).modify block) := by
  intro protWrite db after unarmed leaves
  rw [edbApi_modify_refuses depth block unarmed.closed] at leaves
  cases leaves
  exact ⟨rfl, unarmed⟩

/-- `page_write_host_index` asks `edb_modify_block` for each block, and so writes nothing.
-/
theorem Idles.pageWriteHostIndex (depth root index : Nat) :
    Idles (EverDb.pageWriteHostIndex (edbApi (depth + 1)) root index) := by
  unfold EverDb.pageWriteHostIndex
  refine .bind (.gets _) fun nblocks => .ite (.fail _) (.ite (.modify _ _) (.ite ?_ ?_))
  · exact .bind (.modify _ _) fun root => .bind (.gets _) fun block => .modify _ _
  · exact .bind (.modify _ _) fun root => .bind (.gets _) fun indexBlock =>
      .bind (.modify _ _) fun indexBlock => .bind (.gets _) fun block => .modify _ _

/-- `array_get` writes nothing: it asks for a page at most. -/
theorem Idles.arrayGet (depth root index : Nat) :
    Idles (EverDb.arrayGet (edbApi (depth + 1)) root index) := by
  have place : Idles (arrayData (edbApi (depth + 1)) root index) := by
    unfold arrayData
    refine .bind (.gets _) fun length => .ite (.pure _) (.bind (.gets _) fun nblocks =>
      .bind (.gets _) fun itemSize => .ite (.pure _) (.bind (.divide _ _) fun items => ?_))
    exact .bind (.orAbort (.pageWriteHostIndex _ _ _)) fun page =>
      .bind (.gets _) fun itemSize => .pure _
  unfold EverDb.arrayGet
  refine .bind place fun found => ?_
  cases found with
  | none => exact .fail _
  | some element => exact .gets _

/-- `array_capacity` writes nothing. -/
theorem Idles.arrayCapacity (root : Nat) : Idles (EverDb.arrayCapacity root) := by
  unfold EverDb.arrayCapacity
  exact .bind (.gets _) fun nblocks => .bind (.gets _) fun itemSize =>
    .ite (.divide _ _) (.bind (.divide _ _) fun items => .pure _)

/-- Looking up the root of an object reads the object list and changes the handle. -/
theorem Idles.objRefresh (depth h : Nat) : Idles (EverDb.objRefresh (edbApi (depth + 1)) h) := by
  unfold EverDb.objRefresh
  refine .bind (.handleAt h) fun handle => .bind (.gets _) fun txnId => .ite ?_ (.pure _)
  exact .bind (.gets _) fun objlist => .bind (.arrayGet _ _ _) fun element =>
    .bind (.gets _) fun txnId =>
    .bind (.setHandle _ _) fun _ => .pure _

/-- Reading through a handle looks up the root. -/
theorem Idles.objRead (depth h : Nat) : Idles (EverDb.objRead (edbApi (depth + 1)) h) :=
  .bind (.objRefresh _ _) fun _ => .pure _

/-- Asking for a writable root adds a refused `edb_modify_block`. -/
theorem Idles.objWrite (depth h : Nat) : Idles (EverDb.objWrite (edbApi (depth + 1)) h) :=
  .bind (.objRefresh _ _) fun _ => .bind (.modify _ _) fun _ =>
    .bind (.setHandle _ _) fun _ => .pure _

/-- A call whose return code is dropped. -/
theorem Idles.dropped {call : Code EdbDb α} (idles : Idles call) : Idles (EverDb.dropped call) :=
  .bind idles fun _ => .pure ()

/-- Outside a transaction no page can be asked for. -/
theorem pageWriteHostIndex_refuses (depth root index : Nat) (closed : db.ctl.txn = []) :
    ∃ code, pageWriteHostIndex (edbApi (depth + 1)) root index db = .error code db := by
  have refused : ∀ next : Nat → Code EdbDb Nat,
      ((edbApi (depth + 1)).modify root >>= next) db =
      .error edbErrTxnNoTransaction db := fun next =>
    Code.bind_error (edbApi_modify_refuses depth root closed)
  unfold pageWriteHostIndex
  rw [load_bind]
  split
  · exact ⟨_, rfl⟩
  · split
    · exact ⟨_, edbApi_modify_refuses depth root closed⟩
    · split
      · exact ⟨_, refused _⟩
      · exact ⟨_, refused _⟩

/-- Outside a transaction an element behind a page table is not read: the process
aborts. -/
theorem arrayGet_paged_stuck (depth : Nat) {root i : Nat} (closed : db.ctl.txn = [])
    (inside : i < arrayLength db root) (paged : ptNblocks db root ≠ 0) :
    arrayGet (edbApi (depth + 1)) root i db = .stuck := by
  have length : (db.data root).word lengthWord = arrayLength db root := rfl
  have count : (db.data root).word nblocksWord = ptNblocks db root := rfl
  have place : arrayData (edbApi (depth + 1)) root i db = .stuck := by
    unfold arrayData
    rw [load_bind, length, if_neg (by omega), load_bind, count, Code.gets_bind, if_neg paged]
    unfold divide
    split
    · rfl
    · obtain ⟨code, refused⟩ :=
        pageWriteHostIndex_refuses depth root (i / (blockSize / ptItemSize db root)) closed
      have page : orAbort (pageWriteHostIndex (edbApi (depth + 1)) root
          (i / (blockSize / ptItemSize db root))) db = .stuck := by
        unfold orAbort
        rw [refused]
      rw [Code.ret_bind, Code.bind_stuck page]
  unfold arrayGet
  rw [Code.bind_stuck place]

/-- `obj_write` refuses outside a transaction when the root is at hand, and aborts the
process otherwise. -/
theorem objWrite_refuses_iff (depth h : Nat) (unarmed : Unarmed protWrite db) :
    (∃ code after, objWrite (edbApi (depth + 1)) h db = .error code after) ↔
      ∃ handle, db.ctl.handles[h]? = some handle ∧ RootAtHand db handle := by
  cases found : db.ctl.handles[h]? with
  | none =>
      have stuck : objRefresh (edbApi (depth + 1)) h db = .stuck := by
        refine Code.bind_stuck ?_
        unfold handleAt
        rw [found]
        rfl
      unfold objWrite
      rw [Code.bind_stuck stuck]
      simp
  | some handle =>
      have looked : handleAt h db = .ok handle db := by
        unfold handleAt
        rw [found]
        rfl
      -- once the handle is refreshed, the root cannot be made writable
      have refuses : ∀ fresh middle, Unarmed protWrite middle →
          objRefresh (edbApi (depth + 1)) h db = .ok fresh middle →
          ∃ code after, objWrite (edbApi (depth + 1)) h db = .error code after := by
        intro fresh middle still ran
        unfold objWrite
        rw [Code.bind_ok ran, Code.bind_error (edbApi_modify_refuses depth fresh.root still.closed)]
        exact ⟨_, _, rfl⟩
      have start : objRefresh (edbApi (depth + 1)) h db =
          (if db.ctl.txnId ≠ handle.txnId then do
            let element ← arrayGet (edbApi (depth + 1)) db.ctl.objlist handle.objId
            let txnId ← .gets fun db => db.ctl.txnId
            let handle := { handle with root := (Image.ofList element).word 0, txnId := txnId }
            setHandle h handle
            pure handle
          else pure handle : Code EdbDb ObjHandle) db := by
        unfold objRefresh
        rw [Code.bind_ok looked, Code.gets_bind]
        split <;> rfl
      by_cases current : db.ctl.txnId = handle.txnId
      · rw [if_neg (by simp [current])] at start
        simp only [Option.some.injEq, exists_eq_left']
        exact iff_of_true (refuses _ _ unarmed start) (.inl current.symm)
      · rw [if_pos current] at start
        simp only [Option.some.injEq, exists_eq_left']
        by_cases inside : arrayLength db db.ctl.objlist ≤ handle.objId
        · have refused :=
            start.trans (Code.bind_error (arrayGet_outside (edbApi (depth + 1)) inside))
          refine iff_of_true ?_ (.inr (.inl inside))
          unfold objWrite
          rw [Code.bind_error refused]
          exact ⟨_, _, rfl⟩
        · by_cases small : ptNblocks db db.ctl.objlist = 0
          · refine iff_of_true ?_ (.inr (.inr small))
            have got := arrayGet_inline (edbApi (depth + 1)) small rfl (Nat.lt_of_not_le inside)
            rw [Code.bind_ok got, Code.gets_bind] at start
            obtain ⟨fresh, middle, still, ran⟩ : ∃ fresh middle, Unarmed protWrite middle ∧
                objRefresh (edbApi (depth + 1)) h db = .ok fresh middle := by
              refine ⟨_, _, ?_, start⟩
              exact ⟨unarmed.writable, unarmed.mapping, unarmed.freelist,
                unarmed.objlist, unarmed.closed⟩
            exact refuses fresh middle still ran
          · refine iff_of_false ?_ ?_
            · have stuck := start.trans (Code.bind_stuck
                (arrayGet_paged_stuck depth unarmed.closed (Nat.lt_of_not_le inside) small))
              unfold objWrite
              rw [Code.bind_stuck stuck]
              simp
            · rintro (same | outside | inlined)
              · exact current same.symm
              · exact inside outside
              · exact small inlined

/-- What fails first fails as a whole. -/
theorem error_of_bind {call : Code EdbDb α} {next : α → Code EdbDb β}
    (refused : ∃ code after, call db = .error code after) :
    ∃ code after, (call >>= next) db = .error code after := by
  obtain ⟨code, after, ran⟩ := refused
  exact ⟨code, after, Code.bind_error ran⟩

/-- No root is made writable without a transaction. -/
theorem objWrite_not_ok (depth h : Nat) (unarmed : Unarmed protWrite db) {root : Nat} :
    objWrite (edbApi (depth + 1)) h db ≠ .ok root after := by
  intro wrote
  obtain ⟨handle, refreshed, fresh, rest⟩ := Code.of_bind_ok wrote
  have still := (Idles.objRefresh depth h protWrite db refreshed unarmed (fresh ▸ .ok handle)).2
  rw [Code.bind_error (edbApi_modify_refuses depth handle.root still.closed)] at rest
  cases rest

/-- A call behind `obj_write` ends with an error exactly when `obj_write` does. -/
theorem objWrite_bind_refuses_iff (depth h : Nat) (unarmed : Unarmed protWrite db)
    (next : Nat → Code EdbDb α) :
    (∃ code after, (objWrite (edbApi (depth + 1)) h >>= next) db = .error code after) ↔
      ∃ handle, db.ctl.handles[h]? = some handle ∧ RootAtHand db handle := by
  rw [← objWrite_refuses_iff depth h unarmed]
  constructor
  · rintro ⟨code, after, ran⟩
    cases wrote : objWrite (edbApi (depth + 1)) h db with
    | ok root middle => exact absurd wrote (objWrite_not_ok depth h unarmed)
    | error code middle => exact ⟨code, middle, rfl⟩
    | stuck =>
        rw [Code.bind_stuck wrote] at ran
        cases ran
  · exact error_of_bind

/-- What follows `obj_write` does not run. -/
theorem objWrite_bind_idles (depth h : Nat) (next : Nat → Code EdbDb α) :
    Idles (objWrite (edbApi (depth + 1)) h >>= next) := by
  intro protWrite db after unarmed leaves
  cases wrote : objWrite (edbApi (depth + 1)) h db with
  | ok root middle => exact absurd wrote (objWrite_not_ok depth h unarmed)
  | error code middle =>
      rw [Code.bind_error wrote] at leaves
      cases leaves
      exact Idles.objWrite depth h protWrite db after unarmed (wrote ▸ .error code)
  | stuck =>
      rw [Code.bind_stuck wrote] at leaves
      cases leaves

/-- A table entry is set, or there is no result. -/
theorem txnSet_not_refused (block state : Nat) {code : Int} :
    txnSet block state db ≠ .error code after := by
  intro refused
  unfold txnSet at refused
  split at refused
  · cases refused
  · rename_i ts older open_
    cases entered : memHashSet ts.blocks block state with
    | none =>
        rw [entered] at refused
        cases refused
    | some blocks =>
        rw [entered] at refused
        cases refused

/-- `txn_begin_master` fails with codes of its own. -/
theorem txnBeginMaster_codes {code : Int} (failed : txnBeginMaster db = .error code after) :
    code = 3111 ∨ code = 3112 := by
  unfold txnBeginMaster at failed
  rw [Code.gets_bind, Code.gets_bind] at failed
  split at failed
  · cases failed
    exact .inl rfl
  · split at failed
    · cases failed
      exact .inr rfl
    · cases mapped : db.ctl.protWrite with
      | false =>
          rw [Code.bind_stuck (copyMapped_stuck mapped _ _)] at failed
          cases failed
      | true =>
          rw [Code.bind_ok (copyMapped_run mapped _ _)] at failed
          cases marked : txnSet edbFreelistSecondary edbFreelistPrimary
              (db.write edbFreelistSecondary (db.data edbFreelistPrimary)) with
          | ok value middle =>
              rw [Code.bind_ok marked] at failed
              cases failed
          | error code middle => exact absurd marked (txnSet_not_refused _ _)
          | stuck =>
              rw [Code.bind_stuck marked] at failed
              cases failed

/-- The check of `readonly` lets the call pass. -/
theorem requireWritable_unarmed (unarmed : Unarmed protWrite db) :
    requireWritable db = .ok () db := by
  unfold requireWritable
  rw [Code.gets_bind, unarmed.writable]
  rfl

/-- `edb_txn_begin` does not answer `EDB_ERROR_READ_ONLY`. -/
theorem edbTxnBegin_not_refused (depth : Nat) (unarmed : Unarmed protWrite db) :
    edbTxnBegin depth db ≠ .error edbErrorReadOnly after := by
  intro refused
  unfold edbTxnBegin at refused
  rw [Code.bind_ok (requireWritable_unarmed unarmed)] at refused
  unfold txnBegin setCtl at refused
  rw [Code.gets_bind, unarmed.closed, if_pos (by rfl), Code.update_bind] at refused
  cases ran :
    txnBeginMaster (db.withCtl fun ctl => { ctl with txn := [⟨ctl.nblocks, memHashNew⟩] }) with
  | ok value middle =>
      rw [Code.bind_ok ran] at refused
      cases refused
  | error code middle =>
      rw [Code.bind_error ran] at refused
      cases refused
      have codes := txnBeginMaster_codes ran
      revert codes
      decide
  | stuck =>
      rw [Code.bind_stuck ran] at refused
      cases refused

/-- Where the mapping may not be written, the store of `txn_begin_master` raises a signal. -/
theorem txnBeginMaster_killed (freelist : db.ctl.freelist = edbFreelistPrimary)
    (objlist : db.ctl.objlist = edbObjlist) (mapping : db.ctl.protWrite = false) :
    txnBeginMaster db = .stuck := by
  unfold txnBeginMaster
  rw [Code.gets_bind, Code.gets_bind, if_neg (not_not.mpr freelist), if_neg (not_not.mpr objlist)]
  exact Code.bind_stuck (copyMapped_stuck mapping _ _)

/-- So `edb_txn_begin` does not return. -/
theorem edbTxnBegin_killed (depth : Nat) (unarmed : Unarmed false db) :
    edbTxnBegin depth db = .stuck := by
  have master : txnBeginMaster (db.withCtl fun ctl =>
      { ctl with txn := [⟨ctl.nblocks, memHashNew⟩] }) = .stuck :=
    txnBeginMaster_killed unarmed.freelist unarmed.objlist unarmed.mapping
  unfold edbTxnBegin
  rw [Code.bind_ok (requireWritable_unarmed unarmed)]
  unfold txnBegin setCtl
  rw [Code.gets_bind, unarmed.closed, if_pos (by rfl), Code.update_bind]
  exact Code.bind_stuck master

/-- `edb_txn_commit` finds no transaction to commit. -/
theorem edbTxnCommit_refuses (depth : Nat) (unarmed : Unarmed protWrite db) :
    edbTxnCommit depth db = .error edbErrTxnNoTransaction db := by
  unfold edbTxnCommit
  rw [Code.bind_ok (requireWritable_unarmed unarmed)]
  exact Code.bind_error (requireTxn_none unarmed.closed)

/-- `edb_txn_abort` finds no transaction to abort. -/
theorem edbTxnAbort_refuses (depth : Nat) (unarmed : Unarmed protWrite db) :
    edbTxnAbort depth db = .error edbErrTxnNoTransaction db := by
  unfold edbTxnAbort
  rw [Code.bind_ok (requireWritable_unarmed unarmed)]
  exact Code.bind_error (requireTxn_none unarmed.closed)

/-- `edb_close` unmaps the file. -/
theorem Idles.edbClose : Idles EverDb.edbClose := by
  unfold EverDb.edbClose
  refine .bind (.gets _) fun txn => .ite ?_ (.fail _)
  intro protWrite db after unarmed leaves
  unfold ioClose at leaves
  rw [Code.bind_ok (ioMapClose_run db)] at leaves
  cases leaves
  exact ⟨rfl, unarmed.writable, unarmed.mapping, unarmed.freelist, unarmed.objlist, unarmed.closed⟩

/-- `edb_array_create` cannot make the object list writable. -/
theorem edbArrayCreate_refuses (depth itemSize : Nat) (unarmed : Unarmed protWrite db) :
    edbArrayCreate (depth + 1) itemSize db = .error edbErrTxnNoTransaction db := by
  have refused : objCreate (edbApi (depth + 1)) db = .error edbErrTxnNoTransaction db := by
    unfold objCreate
    rw [Code.gets_bind, Code.bind_error (edbApi_modify_refuses depth _ unarmed.closed)]
  unfold edbArrayCreate
  rw [Code.bind_error refused]

/-- Outside a transaction only the transaction functions can write. -/
theorem ApiCall.idles (depth : Nat) {call : ApiCall} (other : call.kind ≠ .transaction)
    (unarmed : Unarmed protWrite db) (leaves : Leaves after (call.run (depth + 1) db)) :
    after.data = db.data ∧ Unarmed protWrite after := by
  have refusing : ∀ {α : Type} {next : α → Code EdbDb Unit} {first : Code EdbDb α},
      first db = .error edbErrTxnNoTransaction db → Leaves after ((first >>= next) db) →
      after.data = db.data ∧ Unarmed protWrite after := by
    intro α next first refused ended
    rw [Code.bind_error refused] at ended
    cases ended
    exact ⟨rfl, unarmed⟩
  cases call with
  | close => exact Idles.edbClose protWrite db after unarmed leaves
  | txnBegin => exact absurd rfl other
  | txnCommit => exact absurd rfl other
  | txnAbort => exact absurd rfl other
  | allocateBlock => exact refusing (edbApi_allocate_refuses depth unarmed.closed) leaves
  | modifyBlock block => exact refusing (edbApi_modify_refuses depth block unarmed.closed) leaves
  | freeBlock block =>
      have ended : Leaves after (edbFreeBlock (depth + 1) block db) := leaves
      rw [edbFreeBlock, edbApi_free_refuses depth block unarmed.closed] at ended
      cases ended
      exact ⟨rfl, unarmed⟩
  | arrayCreate itemSize => exact refusing (edbArrayCreate_refuses depth _ unarmed) leaves
  | arrayOpen objId => exact Idles.dropped (.newHandle _) protWrite db after unarmed leaves
  | arrayGet h index =>
      exact Idles.dropped (.bind (.objRead depth h) fun _ => .arrayGet _ _ _) protWrite db
        after unarmed leaves
  | arraySet h index =>
      exact Idles.dropped (objWrite_bind_idles depth h _) protWrite db after unarmed leaves
  | arrayPush h buffer => exact objWrite_bind_idles depth h _ protWrite db after unarmed leaves
  | arrayPop h =>
      exact Idles.dropped (objWrite_bind_idles depth h _) protWrite db after unarmed leaves
  | arrayLength h =>
      exact Idles.dropped (.bind (.objRead depth h) fun _ => .gets _) protWrite db
        after unarmed leaves
  | arrayCapacity h =>
      exact Idles.dropped (.bind (.objRead depth h) fun _ => .arrayCapacity _) protWrite db
        after unarmed leaves

/-- A call is answered as on a read-only database exactly when no transaction is
needed to refuse it. -/
theorem keptReadOnly_iff (depth : Nat) (unarmed : Unarmed protWrite db) (call : ApiCall) :
    KeptReadOnly db (call.run (depth + 1) db) call.kind ↔ Refusable db call := by
  -- an error leaves the bytes alone
  have kept : call.kind ≠ .transaction →
      ((∃ code after, call.run (depth + 1) db = .error code after ∧
      after.data = db.data) ↔ ∃ code after, call.run (depth + 1) db = .error code after) := by
    intro other
    constructor
    · rintro ⟨code, after, ran, same⟩
      exact ⟨code, after, ran⟩
    · rintro ⟨code, after, ran⟩
      exact ⟨code, after, ran, (call.idles depth other unarmed (ran ▸ .error code)).1⟩
  have reads : call.kind = .reading → ∀ after, Leaves after (call.run (depth + 1) db) →
      after.data = db.data :=
    fun reading after leaves => (call.idles depth (by rw [reading]; decide) unarmed leaves).1
  have refused : ∀ {α : Type} {first : Code EdbDb α} {next : α → Code EdbDb Unit},
      first db = .error edbErrTxnNoTransaction db →
        ∃ code after, (first >>= next) db = .error code after :=
    fun ran => error_of_bind ⟨_, _, ran⟩
  have transaction :
      ∀ {call : ApiCall}, (∀ after, call.run (depth + 1) db ≠ .error edbErrorReadOnly after) →
      ¬∃ after, call.run (depth + 1) db = .error edbErrorReadOnly after ∧ after.data = db.data :=
    fun never ⟨after, ran, _⟩ => never after ran
  have otherwise : ∀ {call : ApiCall}, call.run (depth + 1) db = .error edbErrTxnNoTransaction db →
      ∀ after, call.run (depth + 1) db ≠ .error edbErrorReadOnly after := by
    intro call ran after same
    rw [ran] at same
    injection same with code _
    revert code
    decide
  cases call with
  | close => exact iff_of_true (reads rfl) trivial
  | txnBegin =>
      exact iff_of_false (transaction fun after => edbTxnBegin_not_refused (depth + 1) unarmed) id
  | txnCommit =>
      exact iff_of_false (transaction (otherwise (edbTxnCommit_refuses (depth + 1) unarmed))) id
  | txnAbort =>
      exact iff_of_false (transaction (otherwise (edbTxnAbort_refuses (depth + 1) unarmed))) id
  | allocateBlock =>
      exact iff_of_true
        ((kept nofun).mpr (refused (edbApi_allocate_refuses depth unarmed.closed))) trivial
  | modifyBlock block =>
      exact iff_of_true
        ((kept nofun).mpr (refused (edbApi_modify_refuses depth block unarmed.closed))) trivial
  | freeBlock block =>
      exact iff_of_true
        ((kept nofun).mpr ⟨_, _, edbApi_free_refuses depth block unarmed.closed⟩) trivial
  | arrayCreate itemSize =>
      exact iff_of_true
        ((kept nofun).mpr (refused (edbArrayCreate_refuses depth itemSize.toNat unarmed))) trivial
  | arraySet h index =>
      have shape : (ApiCall.arraySet h index).run (depth + 1) =
          objWrite (edbApi (depth + 1)) h >>= fun root =>
            dropped (arrayGet (edbApi (depth + 1)) root index) := Code.bind_assoc _
      refine (kept nofun).trans ?_
      rw [shape]
      exact objWrite_bind_refuses_iff depth h unarmed _
  | arrayPush h buffer => exact (kept nofun).trans (objWrite_bind_refuses_iff depth h unarmed _)
  | arrayPop h =>
      have shape : (ApiCall.arrayPop h).run (depth + 1) =
          objWrite (edbApi (depth + 1)) h >>= fun root =>
            dropped (EverDb.arrayPop (edbApi (depth + 1)) root) := Code.bind_assoc _
      refine (kept nofun).trans ?_
      rw [shape]
      exact objWrite_bind_refuses_iff depth h unarmed _
  | arrayOpen objId => exact iff_of_true (reads rfl) trivial
  | arrayGet h index => exact iff_of_true (reads rfl) trivial
  | arrayLength h => exact iff_of_true (reads rfl) trivial
  | arrayCapacity h => exact iff_of_true (reads rfl) trivial

/-- In a run on an open database outside a transaction, every call is answered as on a
read-only database exactly when every call is refusable. -/
theorem runReadOnly_iff (depth : Nat) (unarmed : Unarmed protWrite db) (calls : List ApiCall) :
    RunReadOnly (depth + 1) db calls ↔ RunRefusable (depth + 1) db calls := by
  induction calls generalizing db with
  | nil => exact Iff.rfl
  | cons call calls ih =>
      have first := keptReadOnly_iff depth unarmed call
      have other : Refusable db call → call.kind ≠ .transaction := by
        cases call <;> simp [Refusable, ApiCall.kind]
      constructor
      · rintro ⟨kept, rest⟩
        have refusable := first.mp kept
        refine ⟨refusable, fun after leads => ?_⟩
        exact (ih (call.idles depth (other refusable) unarmed leads.1).2).mp (rest after leads)
      · rintro ⟨refusable, rest⟩
        refine ⟨first.mpr refusable, fun after leads => ?_⟩
        exact (ih (call.idles depth (other refusable) unarmed leads.1).2).mpr (rest after leads)

/-- Where the mapping may not be written, no call writes a byte or opens a transaction. -/
theorem ApiCall.shielded (depth : Nat) (call : ApiCall) (unarmed : Unarmed false db)
    (leaves : Leaves after (call.run (depth + 1) db)) :
    after.data = db.data ∧ Unarmed false after := by
  have refused : ∀ {code : Int}, call.run (depth + 1) db = .error code db →
      after.data = db.data ∧ Unarmed false after := by
    intro code ran
    rw [ran] at leaves
    cases leaves
    exact ⟨rfl, unarmed⟩
  by_cases transaction : call.kind = .transaction
  · cases call with
    | txnBegin =>
        have killed : ApiCall.txnBegin.run (depth + 1) db = .stuck :=
          edbTxnBegin_killed (depth + 1) unarmed
        rw [killed] at leaves
        cases leaves
    | txnCommit => exact refused (edbTxnCommit_refuses (depth + 1) unarmed)
    | txnAbort => exact refused (edbTxnAbort_refuses (depth + 1) unarmed)
    | _ => cases transaction
  · exact call.idles depth transaction unarmed leaves

/-- No sequence of calls writes through a mapping that may not be written. -/
theorem runUnwritten (depth : Nat) (unarmed : Unarmed false db) (calls : List ApiCall) :
    RunUnwritten (depth + 1) db calls := by
  induction calls generalizing db with
  | nil => trivial
  | cons call calls ih =>
      exact ⟨fun after leaves => (call.shielded depth unarmed leaves).1,
        fun after leads => ih (call.shielded depth unarmed leads.1).2⟩

variable {file : FileAnswer} {start : EdbDb}

/-- A file opened read-only is open for writing, and mapped read-only. -/
theorem edbOpen_unarmed (opened : edbOpen file true false start = .ok () db) :
    Unarmed false db := by
  obtain ⟨writable, mapping, freelist, objlist, closed⟩ := edbOpen_mode opened
  exact ⟨writable, mapping, freelist, objlist, closed⟩

/-- In a run on a file that was opened read-only, every call is answered as on a read-only
database exactly when none is a transaction function and every writing call on an object
finds its root. Whatever is called, no byte is written. -/
theorem edbOpen_readOnly_iff (opened : edbOpen file true false start = .ok () db) (depth : Nat)
    (calls : List ApiCall) :
    (RunReadOnly (depth + 1) db calls ↔ RunRefusable (depth + 1) db calls) ∧
    RunUnwritten (depth + 1) db calls :=
  ⟨runReadOnly_iff depth (edbOpen_unarmed opened) calls,
    runUnwritten depth (edbOpen_unarmed opened) calls⟩

/-- A file of four blocks, as a new database leaves it, not yet open. -/
def createdFile : EdbDb where
  data := fun block =>
    if block = edbFreelistPrimary ∨ block = edbObjlist then emptyArray 4 else Image.zero
  ctl := closedEdb grantingOs

/-- The answers for that file. -/
def createdAnswer : FileAnswer := ⟨3, 0, 16384⟩

/-- It opens. -/
theorem createdFile_opens : ∃ db, edbOpen createdAnswer true false createdFile = .ok () db := by
  have opens : (edbOpen createdAnswer true false createdFile).passes (fun _ _ => true) = true := by
    decide +kernel
  obtain ⟨_, db, ran, _⟩ := Outcome.of_passes opens
  exact ⟨db, ran⟩

/-- Without a transaction the new database refuses to allocate; then it is closed. -/
theorem edbOpen_readOnly_iff_created :
    ∃ db, edbOpen createdAnswer true false createdFile = .ok () db ∧
    RunReadOnly 1 db [.allocateBlock, .arrayOpen 0, .close] := by
  obtain ⟨db, opened⟩ := createdFile_opens
  refine ⟨db, opened, (edbOpen_readOnly_iff opened 0 _).1.mpr ?_⟩
  exact ⟨trivial, fun _ _ => ⟨trivial, fun _ _ => ⟨trivial, fun _ _ => trivial⟩⟩⟩

/-- On the database that was opened read-only `edb_txn_commit` finds no transaction, and
`edb_txn_begin` goes on to its first store, which the mapping does not allow. -/
theorem edbOpen_forgets_readOnly : ∃ db, edbOpen createdAnswer true false createdFile = .ok () db ∧
    edbTxnCommit 1 db = .error edbErrTxnNoTransaction db ∧ ¬RunReadOnly 1 db [.txnCommit] ∧
    edbTxnBegin 1 db = .stuck ∧ ¬RunReadOnly 1 db [.txnBegin] := by
  obtain ⟨db, opened⟩ := createdFile_opens
  have unarmed := edbOpen_unarmed opened
  refine ⟨db, opened, edbTxnCommit_refuses 1 unarmed, ?_, edbTxnBegin_killed 1 unarmed, ?_⟩
  · rw [runReadOnly_iff 0 unarmed]
    exact fun refusable => refusable.1
  · rw [runReadOnly_iff 0 unarmed]
    exact fun refusable => refusable.1

end EverDb
