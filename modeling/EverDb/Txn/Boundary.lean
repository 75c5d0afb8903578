import EverDb.Txn.Tracks

/-!
# Begin, commit and abort

Begin opens the books, abort puts back those of begin, and commit leaves the
freelist with the blocks that the table releases, in slot order.
-/

namespace EverDb

open Foundation

variable {others : List Nat} {base books : Books} {c : Client} {l : Ledger} {db : EdbDb}
  {block : Nat}

theorem requireWritable_run (serves : db.Serves) : requireWritable db = .ok () db := by
  simp [requireWritable, serves.writable]

/-- A database that has begun a transaction with the given table. -/
def begunDb (db : EdbDb) (table : MemHash) : EdbDb :=
  (db.write 2 (db.data 1)).withCtl fun ctl =>
    { ctl with txn := [⟨ctl.nblocks, table⟩], freelist := 2, txnId := u32 (ctl.txnId + 1) }

/-- `edb_txn_begin` without a transaction, whatever form the freelist has. -/
theorem edbTxnBegin_run (writable : db.ctl.readonly = false) (protWrite : db.ctl.protWrite = true)
    (freelist : db.ctl.freelist = 1) (objlist : db.ctl.objlist = 3) (closed : db.ctl.txn = [])
    {table : MemHash} (effect : memHashSet memHashNew 2 1 = some table) (depth : Nat) :
    edbTxnBegin depth db = .ok () (begunDb db table) := by
  let entered : EdbDb := db.withCtl fun ctl => { ctl with txn := [⟨ctl.nblocks, memHashNew⟩] }
  let opened : EdbDb := entered.write 2 (db.data 1)
  have set : txnSet 2 1 opened =
      .ok () (opened.withCtl fun ctl => { ctl with txn := [⟨db.ctl.nblocks, table⟩] }) := by
    change (Code.ofOption (memHashSet memHashNew 2 1) >>= _) opened = _
    rw [effect, Code.ofOption_bind_some, setCtl_run]
  have copied : copyMapped 2 1 entered = .ok () opened :=
    copyMapped_run (show entered.ctl.protWrite = true from protWrite) 2 1
  have freelist : entered.ctl.freelist = 1 := freelist
  have objlist : entered.ctl.objlist = 3 := objlist
  have master : txnBeginMaster entered = .ok () (opened.withCtl fun ctl =>
      { ctl with txn := [⟨db.ctl.nblocks, table⟩], freelist := 2 }) := by
    unfold txnBeginMaster
    rw [Code.gets_bind, Code.gets_bind, freelist, objlist, if_neg (by decide), if_neg (by decide),
      Code.bind_ok copied, Code.bind_ok set, setCtl_run]
    rfl
  have allowed : requireWritable db = .ok () db := by simp [requireWritable, writable]
  unfold edbTxnBegin
  rw [Code.bind_ok allowed]
  unfold txnBegin
  rw [Code.gets_bind, closed, if_pos List.isEmpty_nil, Code.bind_ok (setCtl_run _ db),
    Code.bind_ok master, setCtl_run]
  rfl

/-- `edb_txn_begin` without a transaction. -/
theorem Settled.begin_run (settled : Settled db books) (sound : books.Sound others c.held)
    (depth : Nat) :
    ∃ after, edbTxnBegin depth db = .ok () after ∧ Tracks after books books.begun ∧
      after.ctl.handles = db.ctl.handles ∧ after.ctl.txnId = u32 (db.ctl.txnId + 1) ∧
      ∀ other, other ≠ 2 → after.data other = db.data other := by
  obtain ⟨⟨table, effect, begun⟩, _⟩ := sound.begun
  rw [begun]
  have ran :=
    edbTxnBegin_run settled.serves.writable settled.serves.protWrite
      settled.freelist settled.objlist
    settled.txn effect.ran depth
  have root : (begunDb db table).data 2 = db.data 1 := Db.write_data_self db 2 _
  have same : ∀ other, other ≠ 2 → (begunDb db table).data other = db.data other :=
    fun other apart => Db.write_data_of_ne apart
  refine ⟨_, ran, ?_, rfl, rfl, same⟩
  refine ⟨settled.serves.same_mapping rfl, settled.nblocks, rfl, settled.objlist,
    ?_, ?_, ?_, ?_, ?_⟩
  · rw [← settled.nblocks]
    rfl
  · rw [root]
    exact settled.free
  · change Stack ((begunDb db table).data 3) books.objects
    rw [same 3 (by decide)]
    exact settled.objects
  · rw [same 1 (by decide)]
    exact settled.free
  · rw [same 3 (by decide)]
    exact settled.objects

/-- `edb_txn_begin` inside a transaction fails and changes nothing. -/
theorem Tracks.begin_run (tracks : Tracks db base l) (sound : l.Sound others base c) (depth : Nat) :
    edbTxnBegin (depth + 1) db = .error edbErrTxnNotImplemented db := by
  unfold edbTxnBegin
  rw [Code.bind_ok (requireWritable_run tracks.serves)]
  unfold txnBegin
  have kept : Code.ignore (do
      let freelist ← (edbApi (depth + 1)).modify 2
      setCtl fun ctl => { ctl with freelist := freelist }) db = .ok () db := by
    apply Code.ignore_ok
    rw [Code.bind_ok (tracks.modify_root sound.table.wf sound.table.root depth), setCtl_run,
      tracks.same_freelist]
  rw [Code.gets_bind, tracks.txn, if_neg (by simp), Code.gets_bind, tracks.freelist,
    Code.bind_ok kept]
  rfl

/-- `edb_txn_abort` returns to the books of begin; no older block has changed. -/
theorem Tracks.abort_run (tracks : Tracks db base l) (sound : l.Sound others base c) (depth : Nat) :
    ∃ after, edbTxnAbort depth db = .ok () after ∧ Settled after base ∧
      after.ctl.handles = db.ctl.handles ∧ after.ctl.txnId = u32 (db.ctl.txnId + 1) ∧
      ∀ other, other < base.nblocks → after.data other = db.data other := by
  have user := sound.begun.user
  have grown := sound.grown
  have bounded := sound.bounded
  let reset : EdbDb := db.withCtl fun ctl => { ctl with freelist := 1, objlist := 3 }
  have kept : ∀ other, other < base.nblocks →
      (ioResized reset base.nblocks).data other = db.data other := by
    intro other inside
    exact tracks.resized_data bounded (by omega) (by omega) inside
  refine ⟨(ioResized reset base.nblocks).withCtl fun ctl =>
    { ctl with txn := [], txnId := u32 (ctl.txnId + 1) }, ?_, ?_, rfl, rfl, kept⟩
  · unfold edbTxnAbort
    rw [Code.bind_ok (requireWritable_run tracks.serves)]
    unfold txnAbort
    rw [Code.bind_ok (requireTxn_run tracks.txn), Code.gets_bind, tracks.txn,
      if_pos List.length_singleton]
    unfold txnAbortMaster
    have txn : reset.ctl.txn = [⟨base.nblocks, l.table⟩] := tracks.txn
    rw [Code.bind_ok (setCtl_run _ db), Code.gets_bind, txn]
    have resized : ioResize base.nblocks reset = .ok () (ioResized reset base.nblocks) :=
      ioResize_run (by omega) tracks.serves.succeeds
    exact Code.bind_ok resized
  · refine ⟨⟨tracks.serves.writable, (tracks.serves.resized base.nblocks).protWrite,
      tracks.serves.succeeds, rfl⟩, rfl, rfl, rfl, rfl, ?_, ?_⟩
    · exact (kept 1 (by omega)).symm ▸ tracks.baseFree
    · exact (kept 3 (by omega)).symm ▸ tracks.baseObjects

/-- The bindings in the first slots of a table. -/
def slotItems (t : MemHash) (count : Nat) : List (Nat × Nat) :=
  ((List.range count).filter fun j => (t.entries j).k ≠ 0).map
    fun j => ((t.entries j).k, (t.entries j).v)

theorem slotItems_succ_empty {t : MemHash} {i : Nat} (empty : (t.entries i).k = 0) :
    slotItems t (i + 1) = slotItems t i := by
  simp [slotItems, List.range_succ, empty]

theorem slotItems_succ {t : MemHash} {i : Nat} (used : (t.entries i).k ≠ 0) :
    slotItems t (i + 1) = slotItems t i ++ [((t.entries i).k, (t.entries i).v)] := by
  simp [slotItems, List.range_succ, used]

theorem slotItems_isPrefix (t : MemHash) {first last : Nat} (ordered : first ≤ last) :
    slotItems t first <+: slotItems t last := by
  induction last, ordered using Nat.le_induction with
  | base => exact List.prefix_rfl
  | succ last _ ih =>
      by_cases empty : (t.entries last).k = 0
      · rwa [slotItems_succ_empty empty]
      · rw [slotItems_succ empty]
        exact ih.trans (List.prefix_append _ _)

/-- The state of the commit loop before slot `i`. -/
structure Committing (db : EdbDb) (base : Books) (l : Ledger) (i : Nat) (state : EdbDb) : Prop where
  books : ∃ books objlist, books.nblocks = base.nblocks ∧
    Tracks state books { l with
      objlist := objlist
      free := l.free ++ (slotItems l.table i).filterMap l.pushedFor } ∧
    (objlist = l.objlist ∧ l.objlist ∉ (slotItems l.table i).map Prod.fst ∨
      objlist = 3 ∧ l.objlist ∈ (slotItems l.table i).map Prod.fst)
  handles : db.SameHandles state
  kept : ∀ other, 4 ≤ other → state.data other = db.data other

/-- Copying the object list back to its root. -/
theorem Tracks.write_objlist (tracks : Tracks db base l) (copied : 4 ≤ l.objlist) :
    Tracks (db.write 3 (db.data l.objlist)) { base with objects := l.objects } l := by
  refine ⟨tracks.serves.same_mapping rfl, tracks.nblocks, tracks.freelist, tracks.objlist,
    tracks.txn, ?_, ?_, ?_, ?_⟩
  · rw [Db.write_data_of_ne (by decide)]
    exact tracks.free
  · rw [Db.write_data_of_ne (by omega)]
    exact tracks.objects
  · rw [Db.write_data_of_ne (by decide)]
    exact tracks.baseFree
  · rw [Db.write_data_self]
    exact tracks.objects

section Slots

variable {i : Nat} {state : EdbDb}

/-- The binding in a used slot. -/
theorem slot_member (inside : i < l.table.capacity) (used : (l.table.entries i).k ≠ 0) :
    ((l.table.entries i).k, (l.table.entries i).v) ∈ l.table.items := by
  rw [items_eq_map]
  exact (slotItems_isPrefix l.table inside).subset (by simp [slotItems_succ used])

/-- A used slot holds the state of its key. -/
theorem slot_value (wf : l.table.Wf) (inside : i < l.table.capacity)
    (used : (l.table.entries i).k ≠ 0) :
    l.table.get (l.table.entries i).k = (l.table.entries i).v := by
  rw [MemHash.get, (Assoc.lookup_eq_some wf.keys_nodup).mpr (slot_member inside used)]
  rfl

/-- A key has one slot. -/
theorem slot_key_new (wf : l.table.Wf) (inside : i < l.table.capacity)
    (used : (l.table.entries i).k ≠ 0) :
    (l.table.entries i).k ∉ (slotItems l.table i).map Prod.fst := by
  have distinct := wf.keys_nodup
  rw [items_eq_map] at distinct
  have earlier := distinct.sublist ((slotItems_isPrefix l.table inside).sublist.map Prod.fst)
  rw [slotItems_succ used, List.map_append, List.nodup_append] at earlier
  intro member
  exact earlier.2.2 _ member _ (by simp) rfl

/-- The freelist has room for what a slot pushes. -/
theorem slot_room (room : l.free.length + (l.table.items.filterMap l.pushedFor).length ≤ 1021)
    (inside : i < l.table.capacity) (used : (l.table.entries i).k ≠ 0)
    (pushed : l.pushedFor ((l.table.entries i).k, (l.table.entries i).v) = some block) :
    (l.free ++ (slotItems l.table i).filterMap l.pushedFor).length < 1021 := by
  have earlier := ((slotItems_isPrefix l.table inside).filterMap l.pushedFor).length_le
  rw [items_eq_map] at room
  rw [slotItems_succ used, List.filterMap_append, List.length_append] at earlier
  simp only [List.filterMap_cons, pushed, List.filterMap_nil, List.length_singleton] at earlier
  rw [List.length_append]
  unfold slotItems at earlier ⊢
  omega

/-- A slot that pushes nothing. -/
theorem Committing.skip (holds : Committing db base l i state)
    (used : (l.table.entries i).k ≠ 0) (other : (l.table.entries i).k ≠ l.objlist)
    (silent : l.pushedFor ((l.table.entries i).k, (l.table.entries i).v) = none) :
    Committing db base l (i + 1) state := by
  obtain ⟨⟨books, objlist, size, tracks, place⟩, handles, kept⟩ := holds
  refine ⟨⟨books, objlist, size, ?_, ?_⟩, handles, kept⟩
  · rw [slotItems_succ used, List.filterMap_append]
    simpa [silent] using tracks
  · rw [slotItems_succ used]
    simpa [Ne.symm other] using place

/-- A slot that pushes a block. -/
theorem Committing.push (holds : Committing db base l i state) (sound : l.Sound others base c)
    (depth : Nat) (room : l.free.length + (l.table.items.filterMap l.pushedFor).length ≤ 1021)
    (inside : i < l.table.capacity) (used : (l.table.entries i).k ≠ 0)
    (other : (l.table.entries i).k ≠ l.objlist) (user : 4 ≤ block) (bounded : block < 1048576)
    (pushed : l.pushedFor ((l.table.entries i).k, (l.table.entries i).v) = some block) :
    ∃ after, freelistFreeBlock (edbApi (depth + 1)) block state = .ok () after ∧
      Committing db base l (i + 1) after := by
  obtain ⟨⟨books, objlist, size, tracks, place⟩, handles, kept⟩ := holds
  have notRoot : objlist ≠ 2 := by
    rcases place with ⟨h, _⟩ | ⟨h, _⟩
    · rcases sound.table.objlist with h' | ⟨h', _⟩ <;> omega
    · omega
  obtain ⟨after, ran, tracked, later, same⟩ := tracks.freelistFree_run sound.table.wf
    sound.table.root notRoot depth block user (by omega) (slot_room room inside used pushed)
  refine ⟨after, ran, ⟨books, objlist, size, ?_, ?_⟩, handles.trans later, ?_⟩
  · rw [slotItems_succ used, List.filterMap_append]
    simpa [pushed, Ledger.giveBack] using tracked
  · rw [slotItems_succ used]
    simpa [Ne.symm other] using place
  · intro third above
    rw [same third (by omega), kept third above]

/-- The slot of the working copy of the object list. -/
theorem Committing.closeObjlist (holds : Committing db base l i state)
    (sound : l.Sound others base c) (depth : Nat)
    (room : l.free.length + (l.table.items.filterMap l.pushedFor).length ≤ 1021)
    (inside : i < l.table.capacity) (used : (l.table.entries i).k ≠ 0)
    (here : (l.table.entries i).k = state.ctl.objlist) (user : 4 ≤ (l.table.entries i).k) :
    ∃ after, (do
        copyMapped edbObjlist state.ctl.objlist
        freelistFreeBlock (edbApi (depth + 1)) (l.table.entries i).k
        setCtl fun ctl => { ctl with objlist := edbObjlist }) state = .ok () after ∧
      Committing db base l (i + 1) after := by
  obtain ⟨⟨books, objlist, size, tracks, place⟩, handles, kept⟩ := holds
  have bounded := sound.bounded
  rw [tracks.objlist] at here ⊢
  simp only at here ⊢
  obtain ⟨same, _⟩ := place.resolve_right (fun h => by omega)
  have pushed : l.pushedFor ((l.table.entries i).k, (l.table.entries i).v) =
      some (l.table.entries i).k := by
    have notRoot : ¬l.objlist = edbFreelistSecondary := by
      simp only [edbFreelistSecondary]
      omega
    simp [Ledger.pushedFor, notRoot, here, same]
  have within := (sound.table.keys _ (slot_member inside used)).2
  have written := tracks.write_objlist (by simp only; omega)
  obtain ⟨after, ran, tracked, later, unchanged⟩ := written.freelistFree_run
    sound.table.wf sound.table.root (by simp only; omega) depth (l.table.entries i).k user
    (by omega) (slot_room room inside used pushed)
  refine ⟨after.withCtl fun ctl => { ctl with objlist := 3 }, ?_,
    ⟨{ books with objects := l.objects }, 3, size, ?_, .inr ⟨rfl, ?_⟩⟩,
    handles.trans ⟨later.handles, later.txnId⟩, ?_⟩
  · have copied := copyMapped_run tracks.serves.protWrite edbObjlist objlist
    rw [Code.bind_ok copied, Code.bind_ok ran, setCtl_run]
  · refine ⟨tracked.serves.same_mapping rfl, tracked.nblocks, tracked.freelist, rfl, tracked.txn,
      ?_, tracked.baseObjects, tracked.baseFree, tracked.baseObjects⟩
    change Stack (after.data 2) _
    rw [slotItems_succ used, List.filterMap_append]
    simpa [pushed, Ledger.giveBack] using tracked.free
  · rw [slotItems_succ used]
    simp [here, same]
  · intro third above
    change after.data third = _
    rw [unchanged third (by omega), Db.write_data_of_ne (by omega), kept third above]

/-- One slot of the commit loop. -/
theorem commitSlot_run (sound : l.Sound others base c) (depth : Nat)
    (room : l.free.length + (l.table.items.filterMap l.pushedFor).length ≤ 1021)
    (inside : i < l.table.capacity) (holds : Committing db base l i state) :
    ∃ after, commitSlot (edbApi (depth + 1)) (l.table.entries i) state = .ok () after ∧
      Committing db base l (i + 1) after := by
  have bounded := sound.bounded
  unfold commitSlot
  rw [Code.gets_bind]
  by_cases empty : (l.table.entries i).k = 0
  · rw [if_pos empty]
    obtain ⟨⟨books, objlist, size, tracks, place⟩, handles, kept⟩ := holds
    refine ⟨state, rfl, ⟨books, objlist, size, ?_, ?_⟩, handles, kept⟩ <;>
      rwa [slotItems_succ_empty empty]
  rw [if_neg empty]
  have value := slot_value sound.table.wf inside empty
  have key := sound.table.keys _ (slot_member inside empty)
  simp only at key
  by_cases root : (l.table.entries i).k = 2
  · rw [if_pos root]
    refine ⟨state, rfl, holds.skip empty ?_ (by simp [Ledger.pushedFor, root])⟩
    rcases sound.table.objlist with h | ⟨h, _⟩ <;> omega
  rw [if_neg root]
  by_cases list : (l.table.entries i).k = state.ctl.objlist
  · rw [if_pos list]
    exact holds.closeObjlist sound depth room inside empty list (by omega)
  rw [if_neg list]
  have other : (l.table.entries i).k ≠ l.objlist := by
    obtain ⟨⟨books, objlist, _, tracks, place⟩, _, _⟩ := holds
    rw [tracks.objlist] at list
    rcases place with ⟨same, _⟩ | ⟨_, seen⟩
    · exact fun h => list (h.trans same.symm)
    · intro h
      exact slot_key_new sound.table.wf inside empty (h ▸ seen)
  have plain : l.pushedFor ((l.table.entries i).k, (l.table.entries i).v) =
      released ((l.table.entries i).k, (l.table.entries i).v) := by
    simp [Ledger.pushedFor, root, other]
  by_cases new : (l.table.entries i).v = allocated
  · rw [if_pos new]
    exact ⟨state, rfl, holds.skip empty other (by rw [plain, new]; rfl)⟩
  rw [if_neg new]
  by_cases gone : (l.table.entries i).v = freed
  · rw [if_pos gone]
    exact holds.push sound depth room inside empty other (by omega) (by omega)
      (by rw [plain, gone]; rfl)
  rw [if_neg gone]
  have states := sound.table.states (l.table.entries i).k
  have reserved := sound.table.reserved (l.table.entries i).k
  rw [value] at states reserved
  by_cases zero : (l.table.entries i).v = 0
  · -- `freelist_free_block(db, 0)` refuses with the return code of success
    rw [zero]
    exact ⟨state, rfl, holds.skip empty other (by rw [plain, zero]; rfl)⟩
  · have source : 4 ≤ (l.table.entries i).v := by omega
    have small : (l.table.entries i).v < 1048576 := by
      have := states.resolve_left new
      have := this.resolve_left gone
      omega
    exact holds.push sound depth room inside empty other source small
      (by rw [plain, released_source source small])

end Slots

/-- `edb_txn_commit` succeeds and leaves the books that `commit` computes. -/
theorem Tracks.commit_run (tracks : Tracks db base l) (sound : l.Sound others base c) (depth : Nat)
    (room : l.free.length + (l.table.items.filterMap l.pushedFor).length ≤ 1021) :
    ∃ after, edbTxnCommit (depth + 1) db = .ok () after ∧ Settled after l.commit ∧
      after.ctl.handles = db.ctl.handles ∧ after.ctl.txnId = u32 (db.ctl.txnId + 1) ∧
      ∀ other, 4 ≤ other → after.data other = db.data other := by
  have blocks : ∀ {state : EdbDb} {books : Books} {ledger : Ledger}, Tracks state books ledger →
      currentBlocks state = ledger.table := by
    intro state books ledger tracked
    exact currentBlocks_eq tracked.txn
  obtain ⟨middle, looped, ⟨books, objlist, size, final, place⟩, handles, kept⟩ := Code.forLoop_up
    (fun i (db : EdbDb) => i < (currentBlocks db).capacity)
    (fun i => do
      let e ← .gets fun db => (currentBlocks db).entries i
      commitSlot (edbApi (depth + 1)) e)
    (Committing db base l) 0 l.table.capacity 4294967296 db
    (by
      intro i state _ below holds
      obtain ⟨_, _, _, tracked, _⟩ := holds.books
      refine ⟨decide_eq_true (by rw [blocks tracked]; exact below), ?_⟩
      rw [Code.gets_bind, blocks tracked]
      exact commitSlot_run sound depth room below holds)
    (by
      intro state holds
      obtain ⟨_, _, _, tracked, _⟩ := holds.books
      exact decide_eq_false (by rw [blocks tracked]; exact Nat.lt_irrefl _))
    (Nat.zero_le _)
    (by
      rcases sound.table.wf.sized with h | ⟨_, h⟩ <;> omega)
    ⟨⟨base, l.objlist, rfl, by simpa [slotItems] using tracks, .inl ⟨rfl, by simp [slotItems]⟩⟩,
      Db.SameHandles.refl db, fun _ _ => rfl⟩
  have items : slotItems l.table l.table.capacity = l.table.items := (items_eq_map l.table).symm
  rw [items] at final place
  -- the working copy has had its slot
  have primary : objlist = 3 := by
    rcases place with ⟨same, unseen⟩ | ⟨done, _⟩
    · rcases sound.table.objlist with h | ⟨_, state⟩
      · exact same.trans h
      · have listed := MemHash.key_of_get (k := l.objlist) sound.table.wf (by omega)
        exact absurd (List.mem_map.mpr ⟨_, listed, rfl⟩) unseen
    · exact done
  subst primary
  let closed : EdbDb := (middle.write 1 (middle.data 2)).withCtl fun ctl =>
    { ctl with freelist := 1, txn := [], txnId := u32 (ctl.txnId + 1) }
  refine ⟨closed, ?_, ?_, handles.handles, ?_, ?_⟩
  · unfold edbTxnCommit
    rw [Code.bind_ok (requireWritable_run tracks.serves)]
    unfold txnCommit
    rw [Code.bind_ok (requireTxn_run tracks.txn), Code.gets_bind, tracks.txn,
      if_pos List.length_singleton]
    unfold txnCommitMaster
    rw [Code.bind_ok (requireTxn_run tracks.txn), Code.gets_bind, tracks.txn,
      if_neg (by simp), Code.bind_ok (tracks.txnGet_run sound.table.wf 2), sound.table.root,
      if_neg (by decide), Code.bind_ok looped, Code.gets_bind, final.freelist,
      Code.bind_ok (copyMapped_run final.serves.protWrite edbFreelistPrimary 2)]
    rfl
  · refine ⟨final.serves.same_mapping rfl, final.nblocks, rfl, final.objlist, rfl, ?_, ?_⟩
    · change Stack ((middle.write 1 (middle.data 2)).data 1) _
      rw [Db.write_data_self]
      exact final.free
    · change Stack ((middle.write 1 (middle.data 2)).data 3) _
      rw [Db.write_data_of_ne (by decide)]
      exact final.objects
  · change u32 (middle.ctl.txnId + 1) = _
    rw [handles.txnId]
  · intro other above
    change (middle.write 1 (middle.data 2)).data other = _
    rw [Db.write_data_of_ne (by omega), kept other above]

end EverDb
