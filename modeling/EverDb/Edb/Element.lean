import EverDb.Array.Live
import EverDb.Edb.Handle
import EverDb.Txn.Partition

/-!
# Elements through a handle

`OpenArray` is a handle on an array in an open transaction, together with the list of
its elements. The calls that read keep it. `edb_array_set` calls `array_get`, so it
keeps it too and fills the caller's buffer: it stores an element only when the element
is the one stored already.
-/

namespace EverDb

open Foundation

/-- The root that a handle leads to: its own if it was used in this transaction, and the
entry of the object list otherwise. -/
def HandleRoot (db : EdbDb) (l : Ledger) (h root : Nat) : Prop :=
  ∃ handle, db.ctl.handles[h]? = some handle ∧
    (if db.ctl.txnId = handle.txnId then some handle.root else l.objects[handle.objId]?) = some root

/-- A handle on an array of an open transaction. -/
structure OpenArray (db : EdbDb) (base : Books) (l : Ledger) (h root size : Nat)
    (elems : List (List UInt8)) : Prop where
  tracks : Tracks db base l
  working : l.Working base
  handle : HandleRoot db l h root
  live : LiveArray db l root size elems

/-- What the caller finds out with `edb_array_get`. -/
def readElement (depth h i : Nat) (db : EdbDb) : Option (Except Int (List UInt8)) :=
  match edbArrayGet depth h i db with
  | .ok element _ => some (.ok element)
  | .error code _ => some (.error code)
  | .stuck => none

/-- What the caller finds out with `edb_array_length`. -/
def readLength (depth h : Nat) (db : EdbDb) : Option (Except Int Nat) :=
  match edbArrayLength depth h db with
  | .ok length _ => some (.ok length)
  | .error code _ => some (.error code)
  | .stuck => none

/-- `edb_array_set` stores the caller's element: below the length it returns with the
caller's buffer as it was, and the element, the other elements and the length are read
accordingly; elsewhere it fails and no element changes. -/
structure StoresElement (depth : Nat) (db : EdbDb) (h i : Nat) (x : List UInt8) : Prop where
  inside : ∀ length, readLength depth h db = some (.ok length) → i < length →
    ∃ buffer after, edbArraySet depth h i db = .ok buffer after ∧ buffer = x ∧
      readElement depth h i after = some (.ok x) ∧
      (∀ j, j ≠ i → readElement depth h j after = readElement depth h j db) ∧
      readLength depth h after = readLength depth h db
  outside : ∀ length, readLength depth h db = some (.ok length) → length ≤ i →
    ∃ code after, edbArraySet depth h i db = .error code after ∧
      (∀ j, readElement depth h j after = readElement depth h j db) ∧
      readLength depth h after = readLength depth h db

variable {base : Books} {h root size i depth : Nat} {db : EdbDb} {l : Ledger}
  {elems : List (List UInt8)}

namespace OpenArray

/-- A change of the handle that leads to the same array. -/
theorem withHandle (array : OpenArray db base l h root size elems) {handle : ObjHandle} {new : Nat}
    (there : ∃ old, db.ctl.handles[h]? = some old) (current : handle.txnId = db.ctl.txnId)
    (leads : handle.root = new) (live : LiveArray db l new size elems) :
    OpenArray (db.withCtl fun ctl => { ctl with handles := ctl.handles.set h handle }) base l
      h new size elems := by
  obtain ⟨old, found⟩ := there
  obtain ⟨inside, _⟩ := List.getElem?_eq_some_iff.mp found
  refine ⟨array.tracks.withHandles _, array.working, ⟨handle, ?_, ?_⟩, ?_⟩
  · exact List.getElem?_set_self inside
  · exact (if_pos current.symm).trans (congrArg some leads)
  · cases live with
    | small used count header fits elements =>
        exact .small used count ⟨header.itemSize, header.length⟩ fits elements
    | paged blocks indexes used table nonempty header fits elements =>
        exact .paged blocks indexes used (table.congr rfl fun _ _ => rfl) nonempty
          ⟨header.itemSize, header.length⟩ fits elements

/-- Progress keeps a handle. -/
theorem progress (array : OpenArray db base l h root size elems) {spent : Nat}
    {after : EdbDb} {l' : Ledger}
    (progress : Progress base spent db l after l') : OpenArray after base l' h root size elems := by
  obtain ⟨handle, found, leads⟩ := array.handle
  refine ⟨progress.tracks, progress.working, ⟨handle, ?_, ?_⟩, array.live.progress progress⟩
  · rw [progress.handles.handles]
    exact found
  · rw [progress.handles.txnId, progress.objects]
    exact leads

/-- The refresh of `obj_read` and `obj_write` finds the root. -/
theorem objRefresh_run (array : OpenArray db base l h root size elems) (api : BlockApi EdbDb) :
    ∃ handle after, objRefresh api h db = .ok handle after ∧ handle.root = root ∧
      handle.txnId = after.ctl.txnId ∧ (∃ old, after.ctl.handles[h]? = some old) ∧
      OpenArray after base l h root size elems := by
  obtain ⟨handle, found, leads⟩ := array.handle
  have listed : Stack (db.data db.ctl.objlist) l.objects := by
    rw [array.tracks.objlist]
    exact array.tracks.objects
  have ran := objRefresh_leads api listed found ⟨rfl, leads⟩
  refine ⟨_, _, ran, rfl, rfl, ?_, ?_⟩
  · exact ⟨_, List.getElem?_set_self (List.getElem?_eq_some_iff.mp found).1⟩
  · exact array.withHandle ⟨handle, found⟩ rfl rfl array.live

/-- `obj_read` finds the root. -/
theorem objRead_run (array : OpenArray db base l h root size elems) (api : BlockApi EdbDb) :
    ∃ after, objRead api h db = .ok root after ∧ OpenArray after base l h root size elems := by
  obtain ⟨handle, after, ran, leads, _, _, kept⟩ := array.objRefresh_run api
  refine ⟨after, ?_, kept⟩
  unfold objRead
  rw [Code.bind_ok ran, leads]
  rfl

/-- `obj_write` moves the root to a writable block, and the handle follows. -/
theorem objWrite_run (array : OpenArray db base l h root size elems) (depth : Nat)
    (fits : takesFit 1 l.free.length l.nblocks) :
    ∃ new after l', objWrite (edbApi (depth + 2)) h db = .ok new after ∧
      OpenArray after base l' h new size elems ∧
      ∀ count, takesFit (count + 1) l.free.length l.nblocks →
      takesFit count l'.free.length l'.nblocks := by
  obtain ⟨handle, fresh, ran, leads, current, there, kept⟩ :=
    array.objRefresh_run (edbApi (depth + 2))
  obtain ⟨new, middle, l', opened⟩ :=
    kept.tracks.modify_used kept.working depth kept.live.root_used fits
  have progress := opened.progress
  have live : LiveArray middle l' new size elems :=
    kept.live.moved opened.writable.toUsed opened.copied progress.used progress.data
  obtain ⟨old, found⟩ := there
  have followed : ({ handle with root := new } : ObjHandle).root = new := rfl
  refine ⟨new, _, l', ?_,
    (kept.progress progress).withHandle ⟨old, ?_⟩ ?_ followed live, progress.room⟩
  · unfold objWrite
    rw [Code.bind_ok ran, leads, Code.bind_ok opened.ran]
    rfl
  · rw [progress.handles.handles]
    exact found
  · rw [progress.handles.txnId]
    exact current

/-- `edb_array_get` answers with the stored element. -/
theorem read (array : OpenArray db base l h root size elems) (depth i : Nat)
    (fits : takesFit 3 l.free.length l.nblocks) :
    readElement (depth + 2) h i db =
      some (match elems[i]? with
        | some element => .ok element
        | none => .error errArrayIndexOutOfBounds) := by
  obtain ⟨after, ran, kept⟩ := array.objRead_run (edbApi (depth + 2))
  obtain ⟨last, l', _, got⟩ := arrayGet_live kept.tracks kept.working depth i kept.live fits
  unfold readElement edbArrayGet
  rw [Code.bind_ok ran, got]
  cases elems[i]? <;> rfl

/-- `edb_array_length` answers with the length. -/
theorem readLength_eq (array : OpenArray db base l h root size elems) (depth : Nat) :
    readLength depth h db = some (.ok elems.length) := by
  obtain ⟨after, ran, kept⟩ := array.objRead_run (edbApi depth)
  have length : arrayLength after root = elems.length := kept.live.header.length
  unfold readLength edbArrayLength
  rw [Code.bind_ok ran, Code.gets_run, length]

/-- `edb_array_set` answers with the stored element, and the array is as before. -/
theorem set_run (array : OpenArray db base l h root size elems) (depth i : Nat)
    (fits : takesFit 7 l.free.length l.nblocks) :
    ∃ after l' new, OpenArray after base l' h new size elems ∧
    takesFit 3 l'.free.length l'.nblocks ∧
      edbArraySet (depth + 2) h i db =
        match elems[i]? with
        | some element => .ok element after
        | none => .error errArrayIndexOutOfBounds after := by
  have one : takesFit 1 l.free.length l.nblocks :=
    takesFit_less
      (takesFit_less (takesFit_less (takesFit_less (takesFit_less (takesFit_less fits)))))
  obtain ⟨new, middle, mid, wrote, opened, room⟩ := array.objWrite_run depth one
  have left := room 6 fits
  obtain ⟨after, l', progress, got⟩ :=
    arrayGet_live opened.tracks opened.working depth i opened.live
    (takesFit_less (takesFit_less (takesFit_less left)))
  refine ⟨after, l', new, opened.progress progress, progress.room 3 left, ?_⟩
  unfold edbArraySet
  rw [Code.bind_ok wrote]
  exact got

end OpenArray

/-- `edb_array_set` stores the caller's element exactly when the array holds it there
already, or has no such element. -/
theorem edbArraySet_stores_iff (array : OpenArray db base l h root size elems)
    (fits : takesFit 7 l.free.length l.nblocks) (depth i : Nat) (x : List UInt8) :
    StoresElement (depth + 2) db h i x ↔ elems.length ≤ i ∨ elems[i]? = some x := by
  have three : takesFit 3 l.free.length l.nblocks :=
    takesFit_less (takesFit_less (takesFit_less (takesFit_less fits)))
  have length := array.readLength_eq (depth + 2)
  obtain ⟨after, l', new, kept, room, ran⟩ := array.set_run depth i fits
  -- the reads after the call are those before it
  have same : ∀ j, readElement (depth + 2) h j after = readElement (depth + 2) h j db := fun j =>
    (kept.read depth j room).trans (array.read depth j three).symm
  have sameLength : readLength (depth + 2) h after = readLength (depth + 2) h db :=
    (kept.readLength_eq (depth + 2)).trans length.symm
  constructor
  · intro stores
    by_cases inside : i < elems.length
    · obtain ⟨buffer, last, stored, unchanged, _⟩ := stores.inside elems.length length inside
      rw [List.getElem?_eq_getElem inside] at ran ⊢
      rw [ran] at stored
      cases stored
      exact .inr (congrArg some unchanged)
    · exact .inl (by omega)
  · intro holds
    refine ⟨?_, ?_⟩
    · intro count counted inside
      rw [length] at counted
      cases counted
      have found : elems[i]? = some x := holds.resolve_left (by omega)
      rw [found] at ran
      refine ⟨x, after, ran, rfl, ?_, fun j _ => same j, sameLength⟩
      rw [kept.read depth i room, found]
    · intro count counted outside
      rw [length] at counted
      cases counted
      rw [List.getElem?_eq_none outside] at ran
      exact ⟨_, after, ran, same, sameLength⟩

/-- The books of a new database in a transaction that has created one object. -/
def oneObject : Ledger := (Books.begun ⟨4, [], []⟩).create.2

/-- A new database, a transaction, an object with elements of four bytes and two elements. -/
theorem twoElements_open :
    ∃ db h root, OpenArray db ⟨4, [], []⟩ oneObject h root 4 [[7, 0, 0, 0], [9, 0, 0, 0]] := by
  obtain ⟨fresh, _, settled, _⟩ := edbOpenNew_run grantingOs_succeeds
  have empty : Books.Sound [] (Client.mk [] [] [] []).held ⟨4, [], []⟩ := by
    refine ⟨Nat.le_refl _, by decide, fun block => ?_⟩
    have none : ¬(4 ≤ block ∧ block < 4) := by omega
    exact (if_neg none).symm
  obtain ⟨begun, _, tracks, _⟩ := settled.begin_run empty 2
  have sound := empty.begun.2
  have fits : (Books.begun ⟨4, [], []⟩).CreateFits :=
    ⟨fun _ => by decide +kernel, by decide +kernel, by decide⟩
  obtain ⟨created, _, tracked, handles, number, data, _⟩ := tracks.create_run sound 0 4 fits
  let root := (Books.begun ⟨4, [], []⟩).create.1
  have array : InlineArray (created.data root) 4 [] := by
    rw [data]
    exact .empty (by decide)
  obtain ⟨first, _, one⟩ := array.push (edbApi 2) (by decide) (by decide) (Image.ofWord 7)
  rw [← Db.write_data_self created root first] at one
  obtain ⟨image, _, pushed⟩ := one.push (edbApi 2) (by decide) (by decide) (Image.ofWord 9)
  have elements : [] ++ [(Image.ofWord 7).slice 0 4] ++ [(Image.ofWord 9).slice 0 4] =
      [[7, 0, 0, 0], [9, 0, 0, 0]] := by
    decide
  rw [elements] at pushed
  refine ⟨created.write root image, begun.ctl.handles.length, root, ?_, (sound.create fits).working,
    ⟨⟨0, begun.ctl.txnId, root⟩, ?_, ?_⟩, ?_⟩
  · exact tracked.write (by decide +kernel) (by decide +kernel) image
  · rw [Db.write_ctl, handles]
    exact List.getElem?_concat_length
  · rw [Db.write_ctl, number, if_pos rfl]
  · have here : (created.write root image).data root = image := Db.write_data_self _ _ _
    refine .small
      ⟨by decide +kernel, by decide +kernel, by decide +kernel, by decide +kernel⟩ ?_ ⟨?_, ?_⟩
      (by decide) ?_
    · rw [ptNblocks, here]
      exact pushed.count
    · rw [here]
      exact pushed.itemSize
    · rw [here]
      exact pushed.length
    · rw [here]
      exact pushed.elements

/-- Setting the second element to what it is stores it, and setting it to the first does not. -/
theorem edbArraySet_stores_iff_second : ∃ db h, readElement 2 h 0 db = some (.ok [7, 0, 0, 0]) ∧
    StoresElement 2 db h 1 [9, 0, 0, 0] ∧ ¬StoresElement 2 db h 1 [7, 0, 0, 0] := by
  obtain ⟨db, h, root, array⟩ := twoElements_open
  have fits : takesFit 7 oneObject.free.length oneObject.nblocks := by decide +kernel
  refine ⟨db, h, array.read 0 0 (by decide +kernel), ?_, ?_⟩
  · exact (edbArraySet_stores_iff array fits 0 1 [9, 0, 0, 0]).mpr (.inr rfl)
  · exact fun stores =>
      absurd ((edbArraySet_stores_iff array fits 0 1 [7, 0, 0, 0]).mp stores) (by decide)

/-- A new database with an array of one element. -/
def oneElement : Code EdbDb Nat := do
  edbOpenNew
  edbTxnBegin 3
  let h ← edbArrayCreate 3 4
  edbArrayPush 3 h (Image.ofWord 7)
  pure h

/-- Setting it to something else puts the old element in the caller's buffer. -/
theorem edbArraySet_loads : ∃ h db, oneElement emptyFile = .ok h db ∧
    ¬StoresElement 3 db h 0 [9, 0, 0, 0] := by
  have run : (oneElement emptyFile).passes (fun h db =>
      (match readLength 3 h db with
        | some (.ok length) => length == 1
        | _ => false) &&
      (edbArraySet 3 h 0 db).passes (fun buffer _ => buffer != [9, 0, 0, 0])) = true := by
    decide +kernel
  obtain ⟨h, db, ran, holds⟩ := Outcome.of_passes run
  rw [Bool.and_eq_true] at holds
  refine ⟨h, db, ran, fun stores => ?_⟩
  have length : readLength 3 h db = some (.ok 1) := by
    cases found : readLength 3 h db with
    | none =>
        rw [found] at holds
        cases holds.1
    | some answer =>
        rw [found] at holds
        cases answer with
        | error code => cases holds.1
        | ok length => rw [beq_iff_eq.mp holds.1]
  obtain ⟨buffer, after, set, same, _⟩ := stores.inside 1 length (by decide)
  obtain ⟨other, last, loaded, differs⟩ := Outcome.of_passes holds.2
  rw [set] at loaded
  cases loaded
  rw [same] at differs
  revert differs
  decide

end EverDb
