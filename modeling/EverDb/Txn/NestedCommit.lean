import EverDb.Txn.Boundary
import EverDb.Txn.MergeSound

/-!
# Committing a nested transaction

`txn_commit` of a nested transaction computes `Ledger.merge`. It preserves ownership
exactly when the nested transaction freed no copy of its parent and copied no block that
its parent had allocated or copied: a freed copy is forgotten and leaks, and a copied
block is put on the freelist with its state left in the parent's table.
-/

namespace EverDb

open Foundation

/-- A database with a nested transaction whose table is `child`; without it the
database tracks the books of the parent. `txn_begin` opens none, so this is a state of
its own, with the freelist root recorded in the nested table as `txn_begin_master`
records it. -/
structure Stacked (db : EdbDb) (base : Books) (begun : Nat) (child : MemHash)
    (q : Ledger) : Prop where
  txn : db.ctl.txn = [⟨begun, child⟩, ⟨base.nblocks, q.table⟩]
  parent : Tracks (db.withCtl fun ctl => { ctl with txn := ctl.txn.tail }) base q

variable {others saved : List Nat} {base : Books} {cp cl : Client} {p l q : Ledger}
  {db state : EdbDb}
  {begun block : Nat} {child : MemHash} {done rest : List (Nat × Nat)} {entry : Nat × Nat}

/-- What a merge leaves as it was: the handles, the transaction number and every block
but the freelist root. -/
structure Db.Beside (db after : EdbDb) : Prop extends db.SameHandles after where
  data : ∀ other, other ≠ 2 → after.data other = db.data other

/-- A database differs from itself in nothing. -/
theorem Db.Beside.refl (db : EdbDb) : db.Beside db := ⟨Db.SameHandles.refl db, fun _ _ => rfl⟩

/-- What changes nothing beside the transactions twice changes nothing. -/
theorem Db.Beside.trans {middle after : EdbDb} (first : db.Beside middle)
    (second : middle.Beside after) :
    db.Beside after :=
  ⟨first.toSameHandles.trans second.toSameHandles, fun other apart =>
    (second.data other apart).trans (first.data other apart)⟩

namespace Stacked

/-- The table of the parent answers for a block. -/
theorem parentGet_run (stacked : Stacked db base begun child q) (wf : q.table.Wf) (block : Nat) :
    parentGet block db = .ok (q.table.get block) db := by
  unfold parentGet
  rw [stacked.txn]
  simp only
  rw [wf.get_spec, Code.ofOption_some]

/-- The parent's table replaced. -/
theorem parentSet_run (stacked : Stacked db base begun child q) {table : MemHash} {value : Nat}
    (ran : memHashSet q.table block value = some table) :
    ∃ after, parentSet block value db = .ok () after ∧
    Stacked after base begun child (q.set block value) ∧
      db.Beside after := by
  have set : q.set block value = { q with table := table } := by simp [Ledger.set, ran]
  rw [set]
  refine ⟨db.withCtl fun ctl =>
    { ctl with txn := [⟨begun, child⟩, ⟨base.nblocks, table⟩] }, ?_, ⟨rfl, ?_⟩,
    ⟨rfl, rfl⟩, fun _ _ => rfl⟩
  · unfold parentSet
    rw [stacked.txn]
    simp only
    rw [ran, Code.ofOption_bind_some, setCtl_run]
  · have parent := stacked.parent
    exact ⟨parent.serves.same_mapping rfl, parent.nblocks, parent.freelist, parent.objlist, rfl,
      parent.free, parent.objects, parent.baseFree, parent.baseObjects⟩

/-- The nested table records the freelist root as writable. -/
theorem modify_root (stacked : Stacked db base begun child q) (wf : child.Wf)
    (root : child.get 2 = 1) (depth : Nat) : (edbApi (depth + 1)).modify 2 db = .ok 2 db := by
  have read : txnGet 2 db = .ok 1 db :=
    txnGet_of_get stacked.txn (by rw [wf.get_spec, root])
  change txnModifyBlock (edbApi depth) 2 db = _
  unfold txnModifyBlock
  rw [Code.bind_ok (requireTxn_run stacked.txn), Code.bind_ok read]
  rfl

/-- `freelist_free_block` under a nested transaction. -/
theorem freelistFree_run (stacked : Stacked db base begun child q) (wf : child.Wf)
    (root : child.get 2 = 1)
    (apart : q.objlist ≠ 2) (depth : Nat) (user : 4 ≤ block) (bounded : block < 4294967296)
    (room : q.free.length < 1021) :
    ∃ after, freelistFreeBlock (edbApi (depth + 1)) block db = .ok () after ∧
      Stacked after base begun child (q.giveBack block) ∧ db.Beside after := by
  have free : Stack (db.data 2) q.free := stacked.parent.free
  have freelist : db.ctl.freelist = 2 := stacked.parent.freelist
  obtain ⟨image, pushed, stack⟩ := free.push (edbApi (depth + 1)) room bounded
  refine ⟨db.write 2 image, ?_, ⟨stacked.txn, stacked.parent.write_free apart stack⟩, ⟨rfl, rfl⟩,
    fun other different => Db.write_data_of_ne different⟩
  have same : (db.withCtl fun ctl => { ctl with freelist := 2 }) = db := by
    obtain ⟨data, ctl⟩ := db
    have same : ctl.freelist = 2 := freelist
    simp [Db.withCtl, ← same]
  unfold freelistFreeBlock
  rw [if_neg (by simp only [edbUserData]; omega), Code.gets_bind, freelist,
    Code.bind_ok (stacked.modify_root wf root depth), Code.bind_ok (setCtl_run _ db),
    same, Code.gets_bind,
    freelist, pushed]

end Stacked

namespace NestedBooks

/-- The keys that an entry sets can be set. -/
theorem set_run (nest : NestedBooks others saved base cp p cl l)
    (stacked : Stacked state base begun l.table q) (wf : q.table.Wf)
    (keys : ∀ other ∈ q.table.items, (other.1 = 2 ∨ 4 ≤ other.1) ∧ other.1 < l.nblocks) {key : Nat}
    (inside : (key = 2 ∨ 4 ≤ key) ∧ key < l.nblocks) (value : Nat) :
    ∃ after table, parentSet key value state = .ok () after ∧ TableSet q.table table key value ∧
      q.set key value = { q with table := table } ∧
      Stacked after base begun l.table (q.set key value) ∧ state.Beside after := by
  have bounded := nest.inner.bounded
  have few : q.table.items.length < maxKeys := by
    have counted := wf.length_le fun other there => (keys other there).2
    simp only [maxKeys]
    omega
  obtain ⟨table, effect⟩ := wf.set_effect (k := key) (by omega) few value
  obtain ⟨after, ran, later, beside⟩ := stacked.parentSet_run effect.ran
  exact ⟨after, table, ran, effect, by simp [Ledger.set, effect.ran], later, beside⟩

/-- One slot of the loop of `txn_commit`. -/
theorem mergeSlot_run (nest : NestedBooks others saved base cp p cl l)
    (split : l.table.items = done ++ entry :: rest) (holds : Merging cp.retired p l done q)
    (stacked : Stacked state base begun l.table q) (depth : Nat)
    (room : p.mergePush entry ≠ none → q.free.length < 1021) :
    ∃ after, mergeSlot (edbApi (depth + 1)) ⟨entry.1, entry.2⟩ state = .ok () after ∧
      Stacked after base begun l.table (q.mergeEntry entry) ∧ state.Beside after := by
  have member : (entry.1, entry.2) ∈ l.table.items := by simp [split]
  have inside := nest.inner.table.keys entry (by simp [split])
  have bounded := nest.inner.bounded
  have wf := nest.inner.table.wf
  have root := nest.inner.table.root
  have notRoot : q.objlist ≠ 2 := by
    rw [holds.objlist, nest.outerPlain.objlist]
    decide
  obtain ⟨_, _, key⟩ := nest.read_key split holds
  unfold mergeSlot Ledger.mergeEntry
  rw [if_neg (show (⟨entry.1, entry.2⟩ : MemHashItem).k ≠ 0 by simp only; omega)]
  by_cases fresh : entry.2 = allocated
  · rw [if_pos fresh, if_pos fresh]
    obtain ⟨after, _, ran, _, _, later, beside⟩ :=
      nest.set_run stacked holds.wf holds.keys inside allocated
    exact ⟨after, ran, later, beside⟩
  rw [if_neg fresh, if_neg fresh]
  by_cases gone : entry.2 = freed
  · rw [if_pos gone, if_pos gone, Code.bind_ok (stacked.parentGet_run holds.wf entry.1)]
    have retired : entry.1 ∈ cl.retired :=
      nest.inner.freed_retired ((wf.get_of_mem member).trans gone)
    have states := nest.retired_state retired
    rw [← key] at states
    by_cases parent : q.table.get entry.1 = allocated
    · rw [if_pos parent, if_pos parent]
      obtain ⟨middle, _, ran, _, set, later, beside⟩ :=
        nest.set_run stacked holds.wf holds.keys inside 0
      have user := nest.inner.range entry.1 (by simp [retired])
      obtain ⟨after, freeing, final, further⟩ :=
        later.freelistFree_run wf root (by rw [set]; exact notRoot) depth
        user.1 (by omega) (by
          rw [set]
          exact room (by simp [Ledger.mergePush, gone, ← key, parent]))
      exact ⟨after, by rw [Code.bind_ok ran]; exact Code.ignore_ok freeing, final,
        beside.trans further⟩
    have notFreed : q.table.get entry.1 ≠ freed := by
      simp only [freed]
      omega
    rw [if_neg parent, if_neg parent, if_neg notFreed]
    by_cases stateless : q.table.get entry.1 = 0
    · rw [if_neg (by simp [stateless]), if_pos stateless]
      obtain ⟨after, _, ran, _, _, later, beside⟩ :=
        nest.set_run stacked holds.wf holds.keys inside freed
      exact ⟨after, ran, later, beside⟩
    · rw [if_pos stateless, if_neg stateless]
      obtain ⟨low, high, _⟩ := (states.resolve_left stateless).resolve_left parent
      obtain ⟨middle, table, ran, effect, set, later, beside⟩ :=
        nest.set_run stacked holds.wf holds.keys inside 0
      rw [set] at later ⊢
      obtain ⟨after, _, again, _, _, final, further⟩ := nest.set_run later effect.wf
        (effect.keys_all (fun key => (key = 2 ∨ 4 ≤ key) ∧ key < l.nblocks) inside holds.keys)
        ⟨.inr low, high⟩ freed
      exact ⟨after, by rw [Code.bind_ok ran]; exact again, final, beside.trans further⟩
  rw [if_neg gone, if_neg gone, Code.bind_ok (stacked.parentGet_run holds.wf entry.2)]
  obtain ⟨source, place⟩ := nest.read_source split holds fresh gone
  rw [source]
  -- a block that the nested transaction has copied is given back where the parent has a state
  -- for it
  have freeing : p.table.get entry.2 ≠ 0 →
      ∃ after, (freelistFreeBlock (edbApi (depth + 1)) entry.2).ignore state =
      .ok () after ∧ Stacked after base begun l.table (q.giveBack entry.2) ∧
      state.Beside after := by
    intro bound
    obtain ⟨_, user, low⟩ := place.resolve_left bound
    obtain ⟨after, ran, later, beside⟩ :=
      stacked.freelistFree_run wf root notRoot depth user (by omega)
      (room (by simp [Ledger.mergePush, fresh, gone, bound]))
    exact ⟨after, Code.ignore_ok ran, later, beside⟩
  by_cases parent : p.table.get entry.2 = allocated
  · rw [if_pos parent, if_pos parent]
    exact freeing (by rw [parent]; decide)
  rw [if_neg parent, if_neg parent]
  by_cases stateless : p.table.get entry.2 = 0
  · rw [if_neg (by rw [stateless]; decide), if_neg (by simp [stateless]), if_pos stateless]
    obtain ⟨after, _, ran, _, _, later, beside⟩ :=
      nest.set_run stacked holds.wf holds.keys inside entry.2
    exact ⟨after, ran, later, beside⟩
  · have notFreed : p.table.get entry.2 ≠ freed := by
      have states := nest.retired_state (place.resolve_left stateless).1
      simp only [freed]
      omega
    rw [if_neg notFreed, if_pos stateless, if_neg stateless]
    obtain ⟨middle, ran, later, beside⟩ := freeing stateless
    obtain ⟨after, _, again, _, _, final, further⟩ := nest.set_run later holds.wf holds.keys inside
      (p.table.get entry.2)
    exact ⟨after, by rw [Code.bind_ok ran]; exact again, final, beside.trans further⟩

/-- The room that the entries up to one leave in the freelist root. -/
theorem merge_room (split : l.table.items = done ++ entry :: rest)
    (holds : Merging cp.retired p l done q)
    (room : l.free.length + (l.table.items.filterMap p.mergePush).length ≤ 1021)
    (pushes : p.mergePush entry ≠ none) : q.free.length < 1021 := by
  obtain ⟨pushed, some⟩ := Option.ne_none_iff_exists'.mp pushes
  rw [split, List.filterMap_append, List.filterMap_cons, some] at room
  simp only [List.length_append, List.length_cons] at room
  rw [holds.free, List.length_append]
  omega

/-- The state of the loop before slot `i`. -/
structure Slot (retired : List Nat) (p l : Ledger) (base : Books) (begun : Nat)
    (db : EdbDb) (i : Nat) (state : EdbDb) : Prop where
  merging : Merging retired p l (slotItems l.table i)
    ((slotItems l.table i).foldl Ledger.mergeEntry (p.under l))
  stacked :
    Stacked state base begun l.table ((slotItems l.table i).foldl Ledger.mergeEntry (p.under l))
  beside : db.Beside state

/-- `txn_commit` of a nested transaction. -/
theorem commit_run (nest : NestedBooks others saved base cp p cl l)
    (stacked : Stacked db base begun l.table (p.under l))
    (room : l.free.length + (l.table.items.filterMap p.mergePush).length ≤ 1021) (depth : Nat) :
    ∃ after, txnCommit (edbApi (depth + 1)) db = .ok () after ∧ Tracks after base (p.merge l) ∧
      after.ctl.handles = db.ctl.handles ∧ after.ctl.txnId = u32 (db.ctl.txnId + 1) ∧
      ∀ other, other ≠ 2 → after.data other = db.data other := by
  have blocks : ∀ {state : EdbDb} {q : Ledger}, Stacked state base begun l.table q →
      currentBlocks state = l.table := by
    intro state q holds
    exact currentBlocks_eq holds.txn
  have items : slotItems l.table l.table.capacity = l.table.items := (items_eq_map l.table).symm
  have start : Slot cp.retired p l base begun db 0 db := by
    refine ⟨?_, ?_, Db.Beside.refl db⟩
    · simpa [slotItems] using nest.merging_start
    · simpa [slotItems] using stacked
  obtain ⟨middle, looped, merging, final, beside⟩ := Code.forLoop_up
    (fun i (db : EdbDb) => i < (currentBlocks db).capacity)
    (fun i => do
      let e ← .gets fun db => (currentBlocks db).entries i
      mergeSlot (edbApi (depth + 1)) e)
    (Slot cp.retired p l base begun db) 0 l.table.capacity 4294967296 db
    (by
      intro i state _ below holds
      refine ⟨decide_eq_true (by rw [blocks holds.stacked]; exact below), ?_⟩
      rw [Code.gets_bind, blocks holds.stacked]
      by_cases empty : (l.table.entries i).k = 0
      · refine ⟨state, ?_, ?_, ?_, holds.beside⟩
        · unfold mergeSlot
          rw [if_pos empty]
          rfl
        · rw [slotItems_succ_empty empty]
          exact holds.merging
        · rw [slotItems_succ_empty empty]
          exact holds.stacked
      · obtain ⟨rest, split⟩ :=
          slotItems_isPrefix l.table (show i + 1 ≤ l.table.capacity from below)
        rw [items, slotItems_succ empty, List.append_assoc, List.singleton_append] at split
        obtain ⟨after, ran, later, further⟩ :=
          nest.mergeSlot_run split.symm holds.merging holds.stacked depth
          (merge_room split.symm holds.merging room)
        refine ⟨after, ran, ?_, ?_, holds.beside.trans further⟩
        · rw [slotItems_succ empty, List.foldl_append]
          exact nest.merge_entry split.symm holds.merging
        · rw [slotItems_succ empty, List.foldl_append]
          exact later)
    (by
      intro state holds
      exact decide_eq_false (by rw [blocks holds.stacked]; exact Nat.lt_irrefl _))
    (Nat.zero_le _)
    (by
      rcases nest.inner.table.wf.sized with h | ⟨_, h⟩ <;> omega)
    start
  rw [items] at final
  refine ⟨middle.withCtl fun ctl =>
    { ctl with txn := ctl.txn.tail, txnId := u32 (ctl.txnId + 1) }, ?_, ?_,
    beside.handles, ?_, beside.data⟩
  · unfold txnCommit
    rw [Code.bind_ok (requireTxn_run stacked.txn), Code.gets_bind, stacked.txn, if_neg (by simp),
      Code.bind_ok looped, setCtl_run]
  · have parent := final.parent
    exact ⟨parent.serves.same_mapping rfl, parent.nblocks, parent.freelist, parent.objlist,
      parent.txn, parent.free, parent.objects, parent.baseFree, parent.baseObjects⟩
  · change u32 (middle.ctl.txnId + 1) = _
    rw [beside.txnId]

end NestedBooks

/-- A nested transaction whose entries all merge well commits with its parent: neither
commit fails, and the books are in order. -/
theorem nested_commits_sound (started : base.Sound others saved) (outer : Recorded base saved cp p)
    (inner : Recorded p.toBooks cp.held cl l)
    (stacked : Stacked db base p.nblocks l.table (p.under l))
    (well : ∀ entry ∈ l.table.items, p.MergesWell entry)
    (room : l.free.length + (l.table.items.filterMap p.mergePush).length ≤ 1021)
    (roomAfter : (p.merge l).free.length +
      ((p.merge l).table.items.filterMap (p.merge l).pushedFor).length ≤ 1021) (depth : Nat) :
    ∃ after final, txnCommit (edbApi (depth + 1)) db = .ok () after ∧
      edbTxnCommit (depth + 1) after = .ok () final ∧ Settled final (p.merge l).commit ∧
      (p.merge l).commit.Sound others cl.held := by
  have nest := outer.nested inner started
  have sound := nest.merge_sound well
  obtain ⟨after, ran, tracks, _⟩ := nest.commit_run stacked room depth
  obtain ⟨final, committed, settled, _⟩ := tracks.commit_run sound depth roomAfter
  exact ⟨after, final, ran, committed, settled, sound.commit⟩

/-- `txn_commit` of a nested transaction returns with the tables merged, and preserves
ownership exactly when no entry of the nested table meets a copy of the parent and no
copied block was allocated by the parent. -/
theorem nested_commit_owns_iff (started : base.Sound others saved)
    (outer : Recorded base saved cp p)
    (inner : Recorded p.toBooks cp.held cl l)
    (stacked : Stacked db base p.nblocks l.table (p.under l))
    (room : l.free.length + (l.table.items.filterMap p.mergePush).length ≤ 1021) (depth : Nat) :
    ∃ after, txnCommit (edbApi (depth + 1)) db = .ok () after ∧ Tracks after base (p.merge l) ∧
      (MergePreserves others base cp cl l.free (p.merge l) ↔
        ∀ entry ∈ l.table.items, p.MergesWell entry) := by
  have nest := outer.nested inner started
  obtain ⟨after, ran, tracks, _⟩ := nest.commit_run stacked room depth
  exact ⟨after, ran, tracks, nest.preserves_iff⟩

/-- A root that lists given blocks. -/
theorem Stack.of_list (words : List Nat) (short : words.length ≤ 1021)
    (bounded : ∀ word ∈ words, word < 4294967296) : ∃ image, Stack image words := by
  induction words using List.reverseRecOn with
  | nil => exact ⟨_, Stack.empty⟩
  | append_singleton words word ih =>
      rw [List.length_append, List.length_singleton] at short
      obtain ⟨image, stack⟩ :=
        ih (by omega) fun other member => bounded other (List.mem_append_left _ member)
      have stored : Stack ((⟨fun _ => image, closedEdb grantingOs⟩ : EdbDb).data 2) words := stack
      obtain ⟨longer, _, pushed⟩ := stored.push (edbApi 0) (by omega) (bounded word (by simp))
      exact ⟨longer, pushed⟩

/-- Every pair of nested books whose lists fit their roots is that of some database. -/
theorem NestedBooks.stacked (nest : NestedBooks others saved base cp p cl l)
    (free : l.free.length ≤ 1021)
    (baseFree : base.free.length ≤ 1021) (objects : base.objects.length ≤ 1021) :
    ∃ db, Stacked db base p.nblocks l.table (p.under l) := by
  have started := nest.outer.begun
  have small := nest.inner.bounded
  have bounded := started.bounded
  obtain ⟨image, freeStack⟩ := Stack.of_list l.free free fun word member => by
    have := (nest.inner.range word (by simp [member])).2
    omega
  obtain ⟨baseImage, baseStack⟩ := Stack.of_list base.free baseFree fun word member => by
    have := (started.partition.range word (by simp [member])).2
    omega
  obtain ⟨objectImage, objectStack⟩ := Stack.of_list base.objects objects fun word member => by
    have := (started.partition.range word (by simp [member])).2
    omega
  let data : Nat → Image :=
    fun block => if block = 2 then image else if block = 1 then baseImage else objectImage
  refine ⟨⟨data, { closedEdb grantingOs with
    mapped := true
    protWrite := true
    filesize := fileBytes l.nblocks
    nblocks := l.nblocks
    freelist := 2
    objlist := 3
    txn := [⟨p.nblocks, l.table⟩, ⟨base.nblocks, p.table⟩] }⟩, rfl,
      ⟨rfl, rfl, grantingOs_succeeds, rfl⟩, rfl, rfl,
    nest.outerPlain.objlist.symm, rfl, freeStack, ?_, baseStack, objectStack⟩
  change Stack (data p.objlist) p.objects
  rw [nest.outerPlain.objlist, nest.outerPlain.objects]
  exact objectStack

/-- The parent of the examples: it has allocated block 4 of a new file. -/
def parentBooks : Ledger := (Books.begun ⟨4, [], []⟩).allocate.2

/-- The books of the example are those of a parent. -/
theorem parentBooks_recorded : Recorded ⟨4, [], []⟩ [] ⟨[4], [4], [], []⟩ parentBooks :=
  Recorded.begun.allocate (by decide)

/-- A file with two free blocks, whose client holds the two others. -/
def twoHeld : Books := ⟨8, [7, 6], []⟩

/-- The books of the example are sound. -/
theorem twoHeld_sound : Books.Sound [] [5, 4] twoHeld := by
  refine ⟨by decide, by decide, fun block => ?_⟩
  have each : (twoHeld.free ++ [5, 4] ++ twoHeld.objects ++ []).Perm (List.range' 4 4) := by decide
  rw [List.perm_iff_count.mp each block, List.count_range_1']
  rfl

/-- An outer transaction that has allocated block 6. -/
def allocatedSix : Ledger := twoHeld.begun.allocate.2

/-- A transaction nested in it that allocates block 7, copies block 4, and frees block 5
and the block that its parent allocated. -/
def copiedFour : Ledger :=
  ((allocatedSix.toBooks.begun.allocate.2.modify 4).2.freeBlock 5).freeBlock 6

/-- The client of the nested transaction. -/
def copyingClient : Client :=
  (((Client.mk [6, 5, 4] [] [6, 5, 4] []).took 7).moved 4 8).gave 5 |>.gave 6

/-- The merge of that transaction preserves ownership. -/
theorem nested_commit_owns_copied : ∃ db after, txnCommit (edbApi 1) db = .ok () after ∧
    Tracks after twoHeld (allocatedSix.merge copiedFour) ∧
    MergePreserves [] twoHeld ⟨[6, 5, 4], [6], [5, 4], []⟩ copyingClient copiedFour.free
      (allocatedSix.merge copiedFour) := by
  have outer : Recorded twoHeld [5, 4] ⟨[6, 5, 4], [6], [5, 4], []⟩ allocatedSix :=
    Recorded.begun.allocate (by decide)
  have taken : Recorded allocatedSix.toBooks [6, 5, 4] ⟨[7, 6, 5, 4], [7], [6, 5, 4], []⟩
      allocatedSix.toBooks.begun.allocate.2 :=
    Recorded.begun.allocate (by decide +kernel)
  have inner : Recorded allocatedSix.toBooks [6, 5, 4] copyingClient copiedFour :=
    ((taken.modify (show 4 ∈ [7, 6, 5, 4] by decide) (by decide +kernel)).free
      (by decide +kernel)).free
      (by decide +kernel)
  have well : ∀ entry ∈ copiedFour.table.items,
      (entry.2 = freed → allocatedSix.table.get entry.1 = 0 ∨
        allocatedSix.table.get entry.1 = allocated) ∧
        (entry.2 ≠ allocated → entry.2 ≠ freed → allocatedSix.table.get entry.2 = 0) := by
    decide +kernel
  obtain ⟨db, stacked⟩ :=
    (outer.nested inner twoHeld_sound).stacked (by decide +kernel) (by decide) (by decide)
  obtain ⟨after, ran, tracks, preserves⟩ := nested_commit_owns_iff twoHeld_sound outer inner stacked
    (by decide +kernel) 0
  exact ⟨db, after, ran, tracks, preserves.mpr fun entry member =>
    ⟨(well entry member).1, (well entry member).2⟩⟩

/-- A nested transaction that modifies a block which its parent has allocated: the
merge puts block 4 on the freelist and leaves it recorded as allocated. -/
theorem nested_commit_frees_recorded :
    ∃ db after, Stacked db ⟨4, [], []⟩ 5 (parentBooks.toBooks.begun.modify 4).2.table
        (parentBooks.under (parentBooks.toBooks.begun.modify 4).2) ∧
      Recorded ⟨4, [], []⟩ [] ⟨[4], [4], [], []⟩ parentBooks ∧
      Recorded parentBooks.toBooks [4] ⟨[5], [5], [4], [4]⟩ (parentBooks.toBooks.begun.modify 4).2 ∧
      txnCommit (edbApi 1) db = .ok () after ∧
      Tracks after ⟨4, [], []⟩ (parentBooks.merge (parentBooks.toBooks.begun.modify 4).2) ∧
      (parentBooks.merge (parentBooks.toBooks.begun.modify 4).2).free = [4] ∧
      (parentBooks.merge (parentBooks.toBooks.begun.modify 4).2).table.get 4 = allocated ∧
      ¬MergePreserves [] ⟨4, [], []⟩ ⟨[4], [4], [], []⟩ ⟨[5], [5], [4], [4]⟩ []
        (parentBooks.merge (parentBooks.toBooks.begun.modify 4).2) := by
  have opened : Recorded parentBooks.toBooks [4] ⟨[4], [], [4], []⟩ parentBooks.toBooks.begun :=
    .begun
  have inner : Recorded parentBooks.toBooks [4] ⟨[5], [5], [4], [4]⟩
      (parentBooks.toBooks.begun.modify 4).2 :=
    opened.modify (show 4 ∈ [4] by decide) (by decide +kernel)
  have nest := parentBooks_recorded.nested inner newBooks_sound
  obtain ⟨db, stacked⟩ := nest.stacked (by decide +kernel) (by decide) (by decide)
  obtain ⟨after, ran, tracks, _⟩ := nest.commit_run stacked (by decide +kernel) 0
  have freelist : (parentBooks.merge (parentBooks.toBooks.begun.modify 4).2).free = [4] := by
    decide +kernel
  have state : (parentBooks.merge (parentBooks.toBooks.begun.modify 4).2).table.get 4 =
      allocated := by decide +kernel
  refine ⟨db, after, stacked, parentBooks_recorded, inner, ran, tracks, freelist, state,
    fun preserves => ?_⟩
  have pushed := preserves.pushed 4 (by rw [freelist]; decide)
  rw [state] at pushed
  exact absurd pushed (by decide)

end EverDb
