import EverDb.Array.Refine
import EverDb.Edb.Element
import EverDb.Txn.Contract

/-!
# Handles on one object

Every handle keeps the root it saw last. The root of an object that the open
transaction created stays where it is, so all handles read and write one list. The
root of an older object moves with the first write, and only the handle that wrote
follows: the object list still names the old root.
-/

namespace EverDb

open Foundation

/-- The calls on one object. `reopen` is `edb_array_open`. -/
inductive HandleOp where
  | reopen
  | push (h : Nat) (buffer : Image)
  | pop (h : Nat)
  | get (h index : Nat)
  | length (h : Nat)

/-- What a call reports. -/
inductive HandleAnswer where
  | done
  | element (bytes : List UInt8)
  | length (count : Nat)
  | failed (code : Int)
deriving DecidableEq

/-- A call and its report. -/
def runHandleOp (depth objId : Nat) : HandleOp → Code EdbDb HandleAnswer
  | .reopen => edbArrayOpen objId >>= fun _ => pure .done
  | .push h buffer => edbArrayPush depth h buffer >>= fun _ => pure .done
  | .pop h => edbArrayPop depth h >>= fun bytes => pure (.element bytes)
  | .get h index => edbArrayGet depth h index >>= fun bytes => pure (.element bytes)
  | .length h => edbArrayLength depth h >>= fun count => pure (.length count)

/-- A run of calls. A failed call reports its code and the run goes on. -/
def runHandleOps (depth objId : Nat) : List HandleOp → Code EdbDb (List HandleAnswer)
  | [] => pure []
  | op :: ops =>
      (runHandleOp depth objId op).onError (fun code => pure (.failed code)) >>= fun result =>
        runHandleOps depth objId ops >>= fun results => pure (result :: results)

/-- What a call does to the one list that all handles share. -/
def sharedOp (size : Nat) : HandleOp → List (List UInt8) → HandleAnswer × List (List UInt8)
  | .reopen, elems => (.done, elems)
  | .push _ buffer, elems => (.done, elems ++ [buffer.slice 0 size])
  | .pop _, elems =>
      match elems.getLast? with
      | none => (.failed errArrayIndexOutOfBounds, elems)
      | some element => (.element element, elems.dropLast)
  | .get _ index, elems =>
      match elems[index]? with
      | none => (.failed errArrayIndexOutOfBounds, elems)
      | some element => (.element element, elems)
  | .length _, elems => (.length elems.length, elems)

/-- The reports of a run on one list. -/
def sharedOps (size : Nat) : List HandleOp → List (List UInt8) → List HandleAnswer
  | [], _ => []
  | op :: ops, elems => (sharedOp size op elems).1 :: sharedOps size ops (sharedOp size op elems).2

/-- The handles agree in a run: every call reports what it reports of one list that all
handles share. -/
def HandlesAgree (depth objId size : Nat) (db : EdbDb) (elems : List (List UInt8))
    (ops : List HandleOp) : Prop :=
  ∃ after, runHandleOps depth objId ops db = .ok (sharedOps size ops elems) after

/-- Where the root of an object is: in a block of the open transaction, in an older
block, or moved to a copy that the object list does not name. -/
inductive RootPhase where
  | created
  | older
  | moved
deriving DecidableEq

/-- The phase after a call that writes, and the handles that lead to the root then. -/
def RootPhase.written (phase : RootPhase) (mine : List Nat) (h : Nat) : RootPhase × List Nat :=
  match phase with
  | .created => (.created, mine)
  | .older => (.moved, [h])
  | .moved => (.moved, mine)

/-- The handles that lead to the root after another one was opened. -/
def RootPhase.opened (phase : RootPhase) (mine : List Nat) (count : Nat) : List Nat :=
  if phase = .moved then mine else count :: mine

/-- What is known of the root and its handles: the phase, the handles that lead to it
and the number of all handles. -/
structure Standing where
  phase : RootPhase
  mine : List Nat
  count : Nat

/-- What is known after a call. -/
def Standing.next (standing : Standing) : HandleOp → Standing
  | .reopen =>
      ⟨standing.phase, standing.phase.opened standing.mine standing.count, standing.count + 1⟩
  | .push h _ | .pop h =>
      ⟨(standing.phase.written standing.mine h).1,
        (standing.phase.written standing.mine h).2, standing.count⟩
  | .get _ _ | .length _ => standing

/-- The call goes through a handle that leads to the root. -/
def HandleOp.Uses (mine : List Nat) : HandleOp → Prop
  | .reopen => True
  | .push h _ | .pop h | .get h _ | .length h => h ∈ mine

/-- Every call goes through a handle that leads to the root: once an older object was
written, only through the handle that wrote first. -/
def Through (standing : Standing) : List HandleOp → Prop
  | [] => True
  | op :: ops => op.Uses standing.mine ∧ Through (standing.next op) ops

/-- The list never needs more than `limit` data blocks. -/
def SharedFits (size limit : Nat) : List HandleOp → List (List UInt8) → Prop
  | [], _ => True
  | op :: ops, elems =>
      (∀ h buffer, op = .push h buffer → blocksFor size (elems.length + 1) ≤ limit) ∧
        SharedFits size limit ops (sharedOp size op elems).2

variable {fixed : Fixed} {own : Ownership} {depth objId limit root size : Nat} {db : EdbDb}
  {elems : List (List UInt8)}

/-- A valid database with other handles. -/
theorem EdbValid.withHandles {l : Ledger} (valid : EdbValid fixed own db l)
    (handles : List ObjHandle) :
    EdbValid { fixed with handles := handles } own (db.withHandles handles) l :=
  ⟨valid.tracks.withHandles handles, valid.working, valid.owned, valid.objects, valid.objlist,
    rfl, valid.txnId⟩

/-- An array does not depend on the handles. -/
theorem ArrayRep.withHandles
    (array : ArrayRep (edbContract fixed depth) limit own db root size elems)
    (handles : List ObjHandle) :
    ArrayRep (edbContract { fixed with handles := handles } depth) limit own
      (db.withHandles handles) root size
      elems := by
  cases array with
  | small array room =>
      obtain ⟨l, valid⟩ := array.valid
      exact .small ⟨⟨l, valid.withHandles handles⟩, array.writable, array.count,
        ⟨array.header.itemSize, array.header.length⟩, array.fits, array.elements,
          array.trailing⟩ room
  | paged blocks indexes array within room =>
      obtain ⟨l, valid⟩ := array.held.valid
      exact .paged blocks indexes
        ⟨⟨⟨l, valid.withHandles handles⟩, array.held.table.congr rfl fun _ _ => rfl,
        array.held.writable, array.held.live, array.held.distinct⟩, array.nonempty, array.writable,
        ⟨array.header.itemSize, array.header.length⟩, array.fits, array.elements⟩ within room

/-- The bookkeeping behind an array. -/
theorem ArrayRep.edbValid
    (array : ArrayRep (edbContract fixed depth) limit own db root size elems) :
    ∃ l, EdbValid fixed own db l ∧ own.writable root := by
  cases array with
  | small array room =>
      obtain ⟨l, valid⟩ := array.valid
      exact ⟨l, valid, array.writable⟩
  | paged blocks indexes array within room =>
      obtain ⟨l, valid⟩ := array.held.valid
      exact ⟨l, valid, array.held.writable⟩

/-- An array that lies in its root, which an older transaction wrote. -/
structure OlderArray (fixed : Fixed) (own : Ownership) (limit : Nat) (db : EdbDb) (root size : Nat)
    (elems : List (List UInt8)) : Prop where
  valid : ∃ l, EdbValid fixed own db l
  usable : own.usable root
  committed : ¬own.writable root
  count : ptNblocks db root = 0
  header : ArrayHeader db root size elems.length
  fits : elems.length ≤ smallCapacity size
  elements : ∀ i element, elems[i]? = some element → (db.data root).slice (i * size) size = element
  trailing : ∀ offset, smallCapacity size * size ≤ offset → offset < 4084 → db.data root offset = 0
  room : 3 * limit + 1 ≤ own.room

/-- The array behind the handles, by the phase of its root. -/
inductive SharedArray (fixed : Fixed) (own : Ownership) (depth limit : Nat) (db : EdbDb)
    (root size : Nat) (elems : List (List UInt8)) : RootPhase → Prop
  | ours {phase : RootPhase} (written : phase ≠ .older)
      (array : ArrayRep (edbContract fixed depth) limit own db root size elems) :
      SharedArray fixed own depth limit db root size elems phase
  | older (array : OlderArray fixed own limit db root size elems) :
      SharedArray fixed own depth limit db root size elems .older

/-- Handles that lead to one array. -/
structure Sharing (fixed : Fixed) (own : Ownership) (depth objId limit root size : Nat)
    (phase : RootPhase) (mine : List Nat) (db : EdbDb) (elems : List (List UInt8)) : Prop where
  array : SharedArray fixed own depth limit db root size elems phase
  leads : ∀ h ∈ mine, ∃ handle, fixed.handles[h]? = some handle ∧
    LeadsTo fixed.objects fixed.txnId objId root handle
  listed : phase ≠ .moved → fixed.objects[objId]? = some root
  /-- A handle just opened does not look current. -/
  current : fixed.txnId ≠ invalidTxnId

variable {phase : RootPhase} {mine : List Nat}

namespace SharedArray

theorem valid (array : SharedArray fixed own depth limit db root size elems phase) :
    ∃ l, EdbValid fixed own db l := by
  cases array with
  | ours written array =>
      obtain ⟨l, valid, _⟩ := array.edbValid
      exact ⟨l, valid⟩
  | older array => exact array.valid

theorem length (array : SharedArray fixed own depth limit db root size elems phase) :
    arrayLength db root = elems.length := by
  cases array with
  | ours written array => exact array.header.length
  | older array => exact array.header.length

theorem withHandles (array : SharedArray fixed own depth limit db root size elems phase)
    (handles : List ObjHandle) :
    SharedArray { fixed with handles := handles } own depth limit (db.withHandles handles) root
      size elems phase := by
  cases array with
  | ours written array => exact .ours written (array.withHandles handles)
  | older array =>
      obtain ⟨l, valid⟩ := array.valid
      exact .older ⟨⟨l, valid.withHandles handles⟩, array.usable, array.committed, array.count,
        ⟨array.header.itemSize, array.header.length⟩, array.fits, array.elements,
          array.trailing, array.room⟩

/-- `array_get` reads the list. -/
theorem get (array : SharedArray fixed own depth limit db root size elems phase)
    (positive : 0 < size) (small : size ≤ 255) (i : Nat) :
    arrayGet (edbApi (depth + 2)) root i db =
      match elems[i]? with
      | some element => .ok element db
      | none => .error errArrayIndexOutOfBounds db := by
  have length := array.length
  cases array with
  | ours written array => exact arrayGet_spec array positive small i
  | older array =>
      by_cases inside : i < elems.length
      · have found := List.getElem?_eq_getElem inside
        rw [arrayGet_inline _ array.count array.header.itemSize (by rw [length]; exact inside),
          array.elements i _ found, found]
      · rw [arrayGet_outside _ (by rw [length]; omega), List.getElem?_eq_none (by omega)]

end SharedArray

namespace Sharing

/-- The refresh of a handle that leads to the array. -/
theorem refresh (sharing : Sharing fixed own depth objId limit root size phase mine db elems)
    (api : BlockApi EdbDb) {h : Nat} (member : h ∈ mine) :
    ∃ handles, objRefresh api h db = .ok ⟨objId, fixed.txnId, root⟩ (db.withHandles handles) ∧
      Sharing { fixed with handles := handles } own depth objId limit root size phase mine
        (db.withHandles handles)
        elems ∧ handles[h]? = some ⟨objId, fixed.txnId, root⟩ ∧
        handles.length = fixed.handles.length := by
  obtain ⟨handle, found, leads⟩ := sharing.leads h member
  obtain ⟨l, valid⟩ := sharing.array.valid
  obtain ⟨inside, _⟩ := List.getElem?_eq_some_iff.mp found
  have here : db.ctl.handles[h]? = some handle := by
    rw [valid.handles]
    exact found
  have points : LeadsTo l.objects db.ctl.txnId objId root handle := by
    rw [valid.objects, valid.txnId]
    exact leads
  have listed : Stack (db.data db.ctl.objlist) l.objects := by
    rw [valid.tracks.objlist]
    exact valid.tracks.objects
  have ran := objRefresh_leads api listed here points
  rw [valid.handles, valid.txnId] at ran
  refine ⟨_, ran, ⟨sharing.array.withHandles _, ?_, sharing.listed, sharing.current⟩,
    List.getElem?_set_self inside, List.length_set⟩
  intro other inMine
  by_cases same : other = h
  · subst same
    exact ⟨_, List.getElem?_set_self inside, rfl, if_pos rfl⟩
  · obtain ⟨old, there, leadsOld⟩ := sharing.leads other inMine
    exact ⟨old, by rw [List.getElem?_set_ne (Ne.symm same)]; exact there, leadsOld⟩

/-- `obj_read` finds the root. -/
theorem objRead_run (sharing : Sharing fixed own depth objId limit root size phase mine db elems)
    (api : BlockApi EdbDb) {h : Nat} (member : h ∈ mine) :
    ∃ handles, objRead api h db = .ok root (db.withHandles handles) ∧
      Sharing { fixed with handles := handles } own depth objId limit root size phase mine
        (db.withHandles handles)
        elems ∧ handles.length = fixed.handles.length := by
  obtain ⟨handles, ran, kept, _, length⟩ := sharing.refresh api member
  refine ⟨handles, ?_, kept, length⟩
  unfold objRead
  rw [Code.bind_ok ran]
  rfl

/-- `obj_write` leaves an array of the open transaction, and the handle leads to it. -/
theorem objWrite_run
    (sharing : Sharing fixed own depth objId limit root size phase mine db elems) {h : Nat}
    (member : h ∈ mine) :
    ∃ fixed' own' root' after, objWrite (edbApi (depth + 2)) h db = .ok root' after ∧
      ArrayRep (edbContract fixed' depth) limit own' after root' size elems ∧
      Sharing fixed' own' depth objId limit root' size (phase.written mine h).1
        (phase.written mine h).2 after elems ∧
      fixed'.handles.length = fixed.handles.length := by
  obtain ⟨handles, ran, kept, found, length⟩ := sharing.refresh (edbApi (depth + 2)) member
  obtain ⟨inside, there⟩ := List.getElem?_eq_some_iff.mp found
  have written :
      ∀ new after, (edbApi (depth + 2)).modify root (db.withHandles handles) = .ok new after →
      objWrite (edbApi (depth + 2)) h db =
        .ok new (after.withHandles (after.ctl.handles.set h ⟨objId, fixed.txnId, new⟩)) := by
    intro new after modified
    unfold objWrite
    rw [Code.bind_ok ran]
    exact Code.bind_ok modified
  have content := kept.array
  cases content with
  | ours notOlder array =>
      obtain ⟨l, valid, owned⟩ := array.edbValid
      have modified :=
        (edbContract { fixed with handles := handles } depth).modify_writable ⟨l, valid⟩ owned
      have same :
          (db.withHandles handles).ctl.handles.set h ⟨objId, fixed.txnId, root⟩ = handles := by
        change handles.set h _ = handles
        rw [← there]
        exact List.set_getElem_self inside
      have final := written root _ modified
      rw [same] at final
      have phaseSame : phase.written mine h = (phase, mine) := by
        cases phase with
        | created => rfl
        | older => exact absurd rfl notOlder
        | moved => rfl
      rw [phaseSame]
      exact ⟨_, own, root, _, final, array, kept, length⟩
  | older array =>
      obtain ⟨copy, after, modified, fresh, ⟨l, valid⟩, copied, same⟩ :=
        (edbContract { fixed with handles := handles } depth).modify_copy array.valid
        array.usable array.committed
          (by have := array.room; omega)
      have handlesAfter : after.ctl.handles = handles := valid.handles
      have final := written copy _ modified
      rw [handlesAfter] at final
      let moved := handles.set h ⟨objId, fixed.txnId, copy⟩
      have rep :
          ArrayRep (edbContract { fixed with handles := moved } depth) limit (own.copied root copy)
          (after.withHandles moved) copy size elems := by
        refine .small ⟨⟨l, valid.withHandles moved⟩, .inr rfl, ?_, ⟨?_, ?_⟩, array.fits, ?_, ?_⟩ ?_
        · change (after.data copy).word 1023 = 0
          rw [copied]
          exact array.count
        · change (after.data copy 4084).toNat = size
          rw [copied]
          exact array.header.itemSize
        · change (after.data copy).word 1022 = elems.length
          rw [copied]
          exact array.header.length
        · change ∀ i element, elems[i]? = some element →
            (after.data copy).slice (i * size) size = element
          rw [copied]
          exact array.elements
        · change ∀ offset, smallCapacity size * size ≤ offset → offset < 4084 →
            after.data copy offset = 0
          rw [copied]
          exact array.trailing
        · have room := array.room
          simp only [Ownership.copied]
          omega
      refine ⟨_, _, copy, _, final, rep,
        ⟨.ours (by simp [RootPhase.written]) rep, ?_, fun still => absurd rfl still,
        sharing.current⟩, List.length_set.trans length⟩
      intro other inMine
      rw [List.mem_singleton.mp inMine]
      exact ⟨_, List.getElem?_set_self inside, rfl, if_pos rfl⟩

/-- The array of the open transaction after a call on it. -/
theorem replaced {own' later : Ownership} {after : EdbDb} {elems' : List (List UInt8)}
    (sharing : Sharing fixed own' depth objId limit root size phase mine db elems)
    (notOlder : phase ≠ .older)
    (array : ArrayRep (edbContract fixed depth) limit later after root size elems') :
    Sharing fixed later depth objId limit root size phase mine after elems' :=
  ⟨.ours notOlder array, sharing.leads, sharing.listed, sharing.current⟩

/-- A handle is opened. -/
theorem reopened (sharing : Sharing fixed own depth objId limit root size phase mine db elems) :
    ∃ handles, edbArrayOpen objId db = .ok fixed.handles.length (db.withHandles handles) ∧
      Sharing { fixed with handles := handles } own depth objId limit root size phase
        (phase.opened mine fixed.handles.length) (db.withHandles handles) elems ∧
      handles.length = fixed.handles.length + 1 := by
  obtain ⟨l, valid⟩ := sharing.array.valid
  have ran : edbArrayOpen objId db = .ok db.ctl.handles.length
      (db.withHandles (db.ctl.handles ++ [⟨objId, invalidTxnId, 0⟩])) := newHandle_run _ _
  rw [valid.handles] at ran
  have older :
      ∀ h ∈ mine, ∃ handle, (fixed.handles ++ [⟨objId, invalidTxnId, 0⟩])[h]? = some handle ∧
      LeadsTo fixed.objects fixed.txnId objId root handle := by
    intro h member
    obtain ⟨handle, found, leads⟩ := sharing.leads h member
    exact ⟨handle, by rw [List.getElem?_append_left (List.getElem?_eq_some_iff.mp found).1, found],
      leads⟩
  refine ⟨_, ran, ⟨sharing.array.withHandles _, ?_, sharing.listed, sharing.current⟩, by simp⟩
  unfold RootPhase.opened
  split
  · exact older
  · rename_i listed
    intro h member
    rcases List.mem_cons.mp member with rfl | inMine
    · exact ⟨_, List.getElem?_concat_length, rfl,
        (if_neg sharing.current).trans (sharing.listed listed)⟩
    · exact older h inMine

end Sharing

/-- One call reports what it reports of the shared list. -/
theorem Sharing.step (sharing : Sharing fixed own depth objId limit root size phase mine db elems)
    (positive : 0 < size) (small : size ≤ 255) (limited : limit ≤ 521728) (op : HandleOp)
    (uses : op.Uses mine)
    (fits : ∀ h buffer, op = .push h buffer → blocksFor size (elems.length + 1) ≤ limit) :
    let next := Standing.next ⟨phase, mine, fixed.handles.length⟩ op
    ∃ fixed' own' root' after,
      (runHandleOp (depth + 2) objId op).onError (fun code => pure (.failed code)) db =
        .ok (sharedOp size op elems).1 after ∧
      Sharing fixed' own' depth objId limit root' size next.phase next.mine after
        (sharedOp size op elems).2 ∧
      fixed'.handles.length = next.count := by
  have notOlder : ∀ h, (phase.written mine h).1 ≠ .older := fun h => by
    cases phase <;> exact nofun
  cases op with
  | reopen =>
      obtain ⟨handles, ran, kept, length⟩ := sharing.reopened
      exact ⟨_, own, root, _, Code.onError_ok (Code.bind_ok ran), kept, length⟩
  | push h buffer =>
      obtain ⟨fixed', own', root', middle, wrote, array, kept, length⟩ := sharing.objWrite_run uses
      obtain ⟨later, after, pushed, final⟩ :=
        arrayPush_spec array positive small limited (fits h buffer rfl) buffer
      have ran : edbArrayPush (depth + 2) h buffer db = .ok () after := by
        unfold edbArrayPush
        rw [Code.bind_ok wrote, pushed]
      exact ⟨fixed', later, root', after, Code.onError_ok (Code.bind_ok ran),
        kept.replaced (notOlder h) final, length⟩
  | pop h =>
      obtain ⟨fixed', own', root', middle, wrote, array, kept, length⟩ := sharing.objWrite_run uses
      have spec := arrayPop_spec array positive small
      have start : edbArrayPop (depth + 2) h db = arrayPop (edbApi (depth + 2)) root' middle := by
        unfold edbArrayPop
        rw [Code.bind_ok wrote]
      cases last : elems.getLast? with
      | none =>
          simp only [last] at spec
          simp only [sharedOp, last]
          refine ⟨fixed', own', root', middle, ?_, kept, length⟩
          exact Code.onError_error (Code.bind_error (start.trans spec))
      | some element =>
          simp only [last] at spec
          obtain ⟨after, popped, final⟩ := spec
          simp only [sharedOp, last]
          refine ⟨fixed', own', root', after, ?_, kept.replaced (notOlder h) final, length⟩
          exact Code.onError_ok (Code.bind_ok (start.trans popped))
  | get h index =>
      obtain ⟨handles, ran, kept, length⟩ := sharing.objRead_run (edbApi (depth + 2)) uses
      have spec := kept.array.get positive small index
      have start : edbArrayGet (depth + 2) h index db =
          arrayGet (edbApi (depth + 2)) root index (db.withHandles handles) := by
        unfold edbArrayGet
        rw [Code.bind_ok ran]
      cases found : elems[index]? with
      | none =>
          simp only [found] at spec
          simp only [sharedOp, found]
          exact ⟨_, own, root, _,
            Code.onError_error (Code.bind_error (start.trans spec)), kept, length⟩
      | some element =>
          simp only [found] at spec
          simp only [sharedOp, found]
          exact ⟨_, own, root, _, Code.onError_ok (Code.bind_ok (start.trans spec)), kept, length⟩
  | length h =>
      obtain ⟨handles, ran, kept, length⟩ := sharing.objRead_run (edbApi (depth + 2)) uses
      have counted :
          edbArrayLength (depth + 2) h db = .ok elems.length (db.withHandles handles) := by
        unfold edbArrayLength
        rw [Code.bind_ok ran, Code.gets_run, kept.array.length]
      exact ⟨_, own, root, _, Code.onError_ok (Code.bind_ok counted), kept, length⟩

/-- All handles on an object agree in every run of calls through handles that lead to its
root. -/
theorem handles_agree (positive : 0 < size) (small : size ≤ 255) (limited : limit ≤ 521728)
    (sharing : Sharing fixed own depth objId limit root size phase mine db elems)
    (ops : List HandleOp)
    (through : Through ⟨phase, mine, fixed.handles.length⟩ ops)
    (fits : SharedFits size limit ops elems) :
    HandlesAgree (depth + 2) objId size db elems ops := by
  induction ops generalizing fixed own root phase mine db elems with
  | nil => exact ⟨db, rfl⟩
  | cons op ops ih =>
      obtain ⟨fixed', own', root', middle, ran, kept, count⟩ :=
        sharing.step positive small limited op through.1 fits.1
      have rest := through.2
      obtain ⟨after, ended⟩ := ih kept (by rw [count]; exact rest) fits.2
      refine ⟨after, ?_⟩
      unfold runHandleOps
      rw [Code.bind_ok ran, Code.bind_ok ended]
      rfl

/-- A new database, a transaction and an empty object with elements of four bytes. -/
theorem newObject_sharing :
    ∃ fixed own root db, Sharing fixed own 0 0 1 root 4 .created [fixed.handles.length - 1]
    db [] ∧ 0 < fixed.handles.length := by
  obtain ⟨fresh, _, settled, _, number⟩ := edbOpenNew_run grantingOs_succeeds
  have empty : Books.Sound [] (Client.mk [] [] [] []).held ⟨4, [], []⟩ := by
    refine ⟨Nat.le_refl _, by decide, fun block => ?_⟩
    have none : ¬(4 ≤ block ∧ block < 4) := by omega
    exact (if_neg none).symm
  obtain ⟨begun, _, tracks, _, begunNumber, _⟩ := settled.begin_run empty 2
  have sound := empty.begun.2
  have fits : (Books.begun ⟨4, [], []⟩).CreateFits :=
    ⟨fun _ => by decide +kernel, by decide +kernel, by decide⟩
  obtain ⟨created, _, tracked, handles, txnId, data, _⟩ := tracks.create_run sound 0 4 fits
  let root := (Books.begun ⟨4, [], []⟩).create.1
  have array : InlineArray (created.data root) 4 [] := by
    rw [data]
    exact .empty (by decide)
  let own : Ownership := ⟨(· = root), (· = root), (· = root), (· = root), 3⟩
  let fixed : Fixed :=
    ⟨⟨4, [], []⟩, oneObject.objects, oneObject.objlist, created.ctl.handles, created.ctl.txnId⟩
  have owned : oneObject.Owned own := by
    refine ⟨fun _ same => same, fun _ same => same, fun _ same =>
      same, ?_, ?_, ?_, ?_, by decide +kernel⟩
    · rintro block rfl
      exact ⟨by decide +kernel, by decide +kernel, by decide +kernel, by decide +kernel⟩
    · rintro block rfl
      decide +kernel
    · rintro block rfl
      exact iff_of_true rfl (by decide +kernel)
    · rintro block rfl _ notNew
      exact absurd (by decide +kernel) notNew
  have valid : EdbValid fixed own created oneObject :=
    ⟨tracked, (sound.create fits).working, owned, rfl, rfl, rfl, rfl⟩
  have length : created.ctl.handles.length - 1 = begun.ctl.handles.length := by
    rw [handles, List.length_append, List.length_singleton, Nat.add_sub_cancel]
  have listed : oneObject.objects[0]? = some (Books.begun ⟨4, [], []⟩).create.1 := by decide +kernel
  refine ⟨fixed, own, root, created, ⟨.ours nofun (.small ⟨⟨oneObject, valid⟩, rfl, array.count,
    ⟨array.itemSize, array.length⟩, array.fits, array.elements, ?_⟩ (by decide)), ?_, fun _ =>
      listed, ?_⟩, ?_⟩
  · intro offset _ below
    rw [data]
    have apart : offset ≠ 4084 := by omega
    exact Image.setByte_of_ne apart
  · intro h member
    rw [List.mem_singleton.mp member]
    refine ⟨⟨0, begun.ctl.txnId, root⟩, ?_, rfl, if_pos txnId⟩
    change created.ctl.handles[created.ctl.handles.length - 1]? = _
    rw [length, handles]
    exact List.getElem?_concat_length
  · change created.ctl.txnId ≠ _
    rw [txnId, begunNumber, number]
    decide
  · change 0 < created.ctl.handles.length
    rw [handles]
    simp

/-- A second handle sees the element that the first one pushed, and pops it. -/
theorem handles_agree_created : ∃ db a b,
    HandlesAgree 2 0 4 db [] [.push a (Image.ofWord 7), .reopen, .get b 0, .pop b, .length a] := by
  obtain ⟨fixed, own, root, db, sharing, positive⟩ := newObject_sharing
  refine ⟨db, fixed.handles.length - 1, fixed.handles.length,
    handles_agree (by decide) (by decide) (by decide) sharing _ ?_ ?_⟩
  · simp [Through, HandleOp.Uses, Standing.next, RootPhase.written, RootPhase.opened]
  · simp [SharedFits, sharedOp, blocksFor, smallCapacity]

/-- A database with one object of one element, committed, and a second transaction with
two handles on it. -/
def reopenedObject : Code EdbDb (Nat × Nat) := do
  edbOpenNew
  edbTxnBegin 3
  let h ← edbArrayCreate 3 4
  edbArrayPush 3 h (Image.ofWord 7)
  edbTxnCommit 3
  edbTxnBegin 3
  let a ← edbArrayOpen 0
  let b ← edbArrayOpen 0
  pure (a, b)

/-- Both handles read the element, but one does not see what the other pushes. -/
theorem handles_disagree : ∃ a b db, reopenedObject emptyFile = .ok (a, b) db ∧
    HandlesAgree 3 0 4 db [[7, 0, 0, 0]] [.get a 0, .length a, .get b 0, .length b] ∧
    ¬HandlesAgree 3 0 4 db [[7, 0, 0, 0]] [.push a (Image.ofWord 8), .length b] := by
  have run : (reopenedObject emptyFile).passes (fun handles db =>
      (runHandleOps 3 0 [.get handles.1 0, .length handles.1, .get handles.2 0,
        .length handles.2] db).passes
        (fun answers _ =>
          answers == [.element [7, 0, 0, 0], .length 1, .element [7, 0, 0, 0], .length 1]) &&
      (runHandleOps 3 0 [.push handles.1 (Image.ofWord 8), .length handles.2] db).passes
        (fun answers _ => answers == [.done, .length 1])) = true := by
    decide +kernel
  obtain ⟨⟨a, b⟩, db, ran, holds⟩ := Outcome.of_passes run
  rw [Bool.and_eq_true] at holds
  obtain ⟨reads, read, readRan, same⟩ := Outcome.of_passes holds.1
  obtain ⟨answers, after, pushRan, stale⟩ := Outcome.of_passes holds.2
  refine ⟨a, b, db, ran, ⟨read, ?_⟩, ?_⟩
  · rw [readRan, beq_iff_eq.mp same]
    rfl
  · rintro ⟨last, agreed⟩
    rw [pushRan, beq_iff_eq.mp stale] at agreed
    cases agreed

end EverDb
