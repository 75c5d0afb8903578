import EverDb.Txn.Tracks

/-!
# Handles

A handle leads to the root that it saw last in this transaction, and otherwise to the
root that the object list names. `obj_read` and `obj_write` refresh it first.
-/

namespace EverDb

open Foundation

variable {h objId root : Nat} {db : EdbDb} {objects : List Nat}

/-- The database with other handles. -/
def Db.withHandles (db : EdbDb) (handles : List ObjHandle) : EdbDb :=
  db.withCtl fun ctl => { ctl with handles := handles }

/-- Handles are not tracked. -/
theorem Tracks.withHandles {base : Books} {l : Ledger} (tracks : Tracks db base l)
    (handles : List ObjHandle) : Tracks (db.withHandles handles) base l :=
  ⟨tracks.serves.same_mapping rfl, tracks.nblocks, tracks.freelist, tracks.objlist, tracks.txn,
    tracks.free, tracks.objects, tracks.baseFree, tracks.baseObjects⟩

/-- A handle that leads to a root, by the list of objects. -/
def LeadsTo (objects : List Nat) (txnId objId root : Nat) (handle : ObjHandle) : Prop :=
  handle.objId = objId ∧
    (if txnId = handle.txnId then some handle.root else objects[objId]?) = some root

/-- The refresh of a handle. -/
theorem objRefresh_leads (api : BlockApi EdbDb) (listed : Stack (db.data db.ctl.objlist) objects)
    {handle : ObjHandle} (found : db.ctl.handles[h]? = some handle)
    (leads : LeadsTo objects db.ctl.txnId objId root handle) :
    objRefresh api h db =
      .ok ⟨objId, db.ctl.txnId, root⟩
        (db.withHandles (db.ctl.handles.set h ⟨objId, db.ctl.txnId, root⟩)) := by
  obtain ⟨number, same⟩ := leads
  have looked : handleAt h db = .ok handle db := by
    unfold handleAt
    rw [found]
    rfl
  unfold objRefresh
  rw [Code.bind_ok looked, Code.gets_bind]
  by_cases current : db.ctl.txnId = handle.txnId
  · rw [if_pos current] at same
    rw [if_neg (by simp [current])]
    obtain ⟨inside, there⟩ := List.getElem?_eq_some_iff.mp found
    have shape : handle = ⟨objId, db.ctl.txnId, root⟩ := by
      obtain ⟨id, txnId, cached⟩ := handle
      simp only at number current
      have cachedRoot : cached = root := Option.some.inj same
      rw [number, current, cachedRoot]
    have kept : db.ctl.handles.set h ⟨objId, db.ctl.txnId, root⟩ = db.ctl.handles := by
      rw [← shape, ← there]
      exact List.set_getElem_self inside
    rw [kept]
    exact congrArg (fun fresh => Outcome.ok fresh db) shape
  · rw [if_neg current] at same
    have bounded := listed.bounded root (List.mem_of_getElem? same)
    rw [if_pos current, Code.gets_bind]
    rw [← number] at same ⊢
    rw [Code.bind_ok (listed.get same), Code.gets_bind, word_of_wordBytes bounded]
    rfl

end EverDb
