import EverDb.Array.Inline
import EverDb.Edb.Model
import EverDb.Io.Spec
import EverDb.Txn.Working

/-!
# The block functions keep the books

`Tracks` reads the bookkeeping off a database with an open transaction: the lists
are the arrays in the freelist root and the object-list root, the table is the one
of the transaction. Each block function of `txn.c` and `freelist.c` returns the
block its `Ledger` counterpart returns and leaves the database tracking the new
bookkeeping.
-/

namespace EverDb

open Foundation

/-- A database that is open and mapped for writing and whose file has the size recorded. -/
structure Db.Serves (db : EdbDb) : Prop where
  writable : db.ctl.readonly = false
  protWrite : db.ctl.protWrite = true
  succeeds : db.ctl.os.Succeeds
  recorded : db.Recorded

/-- The lists, the transactions and the handles do not matter to it. -/
theorem Db.Serves.same_mapping {db after : EdbDb} (serves : db.Serves)
    (same : after.ctl = { db.ctl with
      freelist := after.ctl.freelist
      objlist := after.ctl.objlist
      txn := after.ctl.txn
      txnId := after.ctl.txnId
      handles := after.ctl.handles }) : after.Serves := by
  obtain ⟨writable, protWrite, succeeds, recorded⟩ := serves
  refine ⟨?_, ?_, ?_, ?_⟩
  · rw [same]
    exact writable
  · rw [same]
    exact protWrite
  · rw [same]
    exact succeeds
  · unfold Db.Recorded
    rw [same]
    exact recorded

/-- A granted resize leaves such a database. -/
theorem Db.Serves.resized {db : EdbDb} (serves : db.Serves) (nblocks : Nat) :
    (ioResized db nblocks).Serves where
  writable := serves.writable
  protWrite := congrArg not serves.writable
  succeeds := serves.succeeds
  recorded := rfl

/-- The bookkeeping of a database with an open transaction that began with `base`. -/
structure Tracks (db : EdbDb) (base : Books) (l : Ledger) : Prop where
  serves : db.Serves
  nblocks : db.ctl.nblocks = l.nblocks
  freelist : db.ctl.freelist = 2
  objlist : db.ctl.objlist = l.objlist
  txn : db.ctl.txn = [⟨base.nblocks, l.table⟩]
  free : Stack (db.data 2) l.free
  objects : Stack (db.data l.objlist) l.objects
  baseFree : Stack (db.data 1) base.free
  baseObjects : Stack (db.data 3) base.objects

/-- The bookkeeping of a database without a transaction. -/
structure Settled (db : EdbDb) (books : Books) : Prop where
  serves : db.Serves
  nblocks : db.ctl.nblocks = books.nblocks
  freelist : db.ctl.freelist = 1
  objlist : db.ctl.objlist = 3
  txn : db.ctl.txn = []
  free : Stack (db.data 1) books.free
  objects : Stack (db.data 3) books.objects

/-- What the block functions never touch: the handles and the transaction number. -/
structure Db.SameHandles (db after : EdbDb) : Prop where
  handles : after.ctl.handles = db.ctl.handles
  txnId : after.ctl.txnId = db.ctl.txnId

/-- A database has its own handles. -/
theorem Db.SameHandles.refl (db : EdbDb) : db.SameHandles db := ⟨rfl, rfl⟩

/-- What leaves the handles twice leaves them. -/
theorem Db.SameHandles.trans {db middle after : EdbDb} (first : db.SameHandles middle)
    (second : middle.SameHandles after) : db.SameHandles after :=
  ⟨second.handles.trans first.handles, second.txnId.trans first.txnId⟩

variable {others : List Nat} {base : Books} {c : Client} {l : Ledger} {db : EdbDb} {block : Nat}

/-- A change of the control record. -/
theorem setCtl_run (change : Edb → Edb) (db : EdbDb) :
    setCtl change db = .ok () (db.withCtl change) := rfl

/-- A new handle is put last, and its number is answered. -/
theorem newHandle_run (handle : ObjHandle) (db : EdbDb) :
    newHandle handle db = .ok db.ctl.handles.length
      (db.withCtl fun ctl => { ctl with handles := ctl.handles ++ [handle] }) := rfl

/-- Storing the freelist root that is there already. -/
theorem Tracks.same_freelist (tracks : Tracks db base l) :
    (db.withCtl fun ctl => { ctl with freelist := 2 }) = db := by
  obtain ⟨data, ctl⟩ := db
  have same : ctl.freelist = 2 := tracks.freelist
  simp [Db.withCtl, ← same]

/-- Within a transaction the check passes. -/
theorem requireTxn_run {ts : TxnState} {older : List TxnState} (txn : db.ctl.txn = ts :: older) :
    requireTxn db = .ok () db := by
  simp [requireTxn, txn]

/-- Outside a transaction the check fails. -/
theorem requireTxn_none (txn : db.ctl.txn = []) :
    requireTxn db = .error edbErrTxnNoTransaction db := by
  simp [requireTxn, txn]

section CurrentTable

variable {ts : TxnState} {older : List TxnState} {state : Nat}

/-- The current table is that of the innermost transaction. -/
theorem currentBlocks_eq (txn : db.ctl.txn = ts :: older) : currentBlocks db = ts.blocks := by
  rw [currentBlocks, txn]
  rfl

/-- Reading a key of the current table. -/
theorem txnGet_eq (txn : db.ctl.txn = ts :: older) (block : Nat) :
    txnGet block db = Code.ofOption (memHashGet ts.blocks block) db := by
  unfold txnGet
  rw [txn]

/-- The state that the current table has for a block. -/
theorem txnGet_of_get (txn : db.ctl.txn = ts :: older)
    (read : memHashGet ts.blocks block = some state) : txnGet block db = .ok state db := by
  rw [txnGet_eq txn, read, Code.ofOption_some]

/-- Writing a key into the current table. -/
theorem txnSet_eq (txn : db.ctl.txn = ts :: older) (block state : Nat) :
    txnSet block state db =
      (Code.ofOption (memHashSet ts.blocks block state) >>= fun blocks =>
        setCtl fun ctl => { ctl with txn := { ts with blocks := blocks } :: older }) db := by
  unfold txnSet
  rw [txn]

end CurrentTable

/-- The loop of `freelist_allocate_block` that pushes the blocks from `start` on. -/
theorem pushBlocks_run (api : BlockApi EdbDb) (freelist : db.ctl.freelist = 2) (start : Nat)
    (stack : Stack (db.data 2) []) (ordered : start ≤ db.ctl.nblocks)
    (room : db.ctl.nblocks ≤ start + 1021) (bounded : db.ctl.nblocks < 4294967296) :
    ∃ image, Code.forLoop (fun i (db : EdbDb) => i < db.ctl.nblocks)
        (fun i => do
          let freelist ← .gets fun db => db.ctl.freelist
          arrayPush api freelist (Image.ofWord i))
        4294967296 start db = .ok () (db.write 2 image) ∧
      Stack image (List.range' start (db.ctl.nblocks - start)) := by
  obtain ⟨after, ran, image, rfl, final⟩ := Code.forLoop_up
    (fun i (db : EdbDb) => i < db.ctl.nblocks)
    (fun i => do
      let freelist ← .gets fun db : EdbDb => db.ctl.freelist
      arrayPush api freelist (Image.ofWord i))
    (fun count state => ∃ image, state = db.write 2 image ∧
      Stack image (List.range' start (count - start)))
    start db.ctl.nblocks 4294967296 db
    (by
      rintro count state above below ⟨image, rfl, pushed⟩
      refine ⟨decide_eq_true below, ?_⟩
      have stored : Stack ((db.write 2 image).data 2) (List.range' start (count - start)) := by
        rw [Db.write_data_self]
        exact pushed
      obtain ⟨larger, ran, longer⟩ := stored.push api (by rw [List.length_range']; omega)
        (show count < 4294967296 by omega)
      refine ⟨_, ?_, larger, Db.write_write db 2 image larger, ?_⟩
      · rw [Code.gets_bind, Db.write_ctl, freelist]
        exact ran
      · rw [show count + 1 - start = count - start + 1 by omega, List.range'_1_concat,
          show start + (count - start) = count by omega]
        exact longer)
    (by
      rintro state ⟨image, rfl, _⟩
      simp)
    ordered (by omega)
    ⟨db.data 2, (Db.write_same db 2).symm, by rwa [Nat.sub_self, List.range'_zero]⟩
  exact ⟨image, ran, final⟩

namespace Tracks

/-- The table that is tracked answers for a block. -/
theorem txnGet_run (tracks : Tracks db base l) (wf : l.table.Wf) (block : Nat) :
    txnGet block db = .ok (l.table.get block) db := by
  exact txnGet_of_get tracks.txn (wf.get_spec block)

/-- The current table replaced. -/
theorem txnSet_run (tracks : Tracks db base l) {after : MemHash} {state : Nat}
    (ran : memHashSet l.table block state = some after) :
    ∃ later, txnSet block state db = .ok () later ∧
      Tracks later base { l with table := after } ∧ later.data = db.data ∧
      db.SameHandles later := by
  refine ⟨db.withCtl fun ctl => { ctl with txn := [⟨base.nblocks, after⟩] }, ?_, ?_, rfl, rfl, rfl⟩
  · rw [txnSet_eq tracks.txn, ran, Code.ofOption_bind_some, setCtl_run]
  · exact ⟨tracks.serves.same_mapping rfl, tracks.nblocks, tracks.freelist, tracks.objlist, rfl,
      tracks.free, tracks.objects, tracks.baseFree, tracks.baseObjects⟩

/-- A write outside the four roots. -/
theorem write (tracks : Tracks db base l) (user : 4 ≤ block) (apart : block ≠ l.objlist)
    (image : Image) : Tracks (db.write block image) base l := by
  refine ⟨tracks.serves.same_mapping rfl, tracks.nblocks, tracks.freelist, tracks.objlist,
    tracks.txn, ?_, ?_, ?_, ?_⟩
  · rw [Db.write_data_of_ne (by omega)]
    exact tracks.free
  · rw [Db.write_data_of_ne (Ne.symm apart)]
    exact tracks.objects
  · rw [Db.write_data_of_ne (by omega)]
    exact tracks.baseFree
  · rw [Db.write_data_of_ne (by omega)]
    exact tracks.baseObjects

/-- A change of the freelist root. -/
theorem write_free (tracks : Tracks db base l) (apart : l.objlist ≠ 2) {image : Image}
    {free : List Nat} (stack : Stack image free) :
    Tracks (db.write 2 image) base { l with free := free } := by
  refine ⟨tracks.serves.same_mapping rfl, tracks.nblocks, tracks.freelist, tracks.objlist,
    tracks.txn, ?_, ?_, ?_, ?_⟩
  · rw [Db.write_data_self]
    exact stack
  · rw [Db.write_data_of_ne apart]
    exact tracks.objects
  · rw [Db.write_data_of_ne (by decide)]
    exact tracks.baseFree
  · rw [Db.write_data_of_ne (by decide)]
    exact tracks.baseObjects

/-- A file that grows keeps the bytes of its blocks. -/
theorem resized_data (tracks : Tracks db base l) {nblocks other : Nat} (small : l.nblocks < 1048576)
    (bounded : nblocks < 1048576) (kept : other < l.nblocks) (inside : other < nblocks) :
    (ioResized db nblocks).data other = db.data other := by
  have sizes : db.ctl.filesize = l.nblocks * 4096 := by
    rw [tracks.serves.recorded, tracks.nblocks, fileBytes_of_lt small]
  simp only [ioResized, resizedData, fileBytes_of_lt bounded, sizes]
  split
  · rfl
  · simp only [Db.clip, blockSize]
    rw [if_pos (by omega)]

/-- A file that grows keeps its books. -/
theorem resized (tracks : Tracks db base l) (working : l.Working base) {nblocks : Nat}
    (more : l.nblocks ≤ nblocks)
    (bounded : nblocks < 1048576) :
    Tracks (ioResized db nblocks) base { l with nblocks := nblocks } := by
  have user := working.user
  have grown := working.grown
  have small := working.bounded
  have apart : l.objlist < l.nblocks := working.objlist.2.1
  have kept : ∀ other, other < l.nblocks → (ioResized db nblocks).data other = db.data other :=
    fun other inside => tracks.resized_data small bounded inside (by omega)
  refine ⟨tracks.serves.resized _, rfl, tracks.freelist, tracks.objlist, tracks.txn, ?_, ?_, ?_, ?_⟩
  · rw [kept 2 (by omega)]
    exact tracks.free
  · rw [kept _ apart]
    exact tracks.objects
  · rw [kept 1 (by omega)]
    exact tracks.baseFree
  · rw [kept 3 (by omega)]
    exact tracks.baseObjects

/-- The root of the freelist is writable from begin on. -/
theorem modify_root (tracks : Tracks db base l) (wf : l.table.Wf) (root : l.table.get 2 = 1)
    (depth : Nat) : (edbApi (depth + 1)).modify 2 db = .ok 2 db := by
  change txnModifyBlock (edbApi depth) 2 db = _
  unfold txnModifyBlock
  rw [Code.bind_ok (requireTxn_run tracks.txn), Code.bind_ok (tracks.txnGet_run wf 2), root]
  rfl

/-- `freelist_allocate_block` returns the block that `take` returns. -/
theorem freelistAllocate_run (tracks : Tracks db base l) (working : l.Working base) (depth : Nat)
    (fits : takesFit 1 l.free.length l.nblocks) :
    ∃ after, freelistAllocateBlock (edbApi (depth + 1)) db = .ok l.take.1 after ∧
      Tracks after base l.take.2 ∧ db.SameHandles after ∧
      ∀ other, other ≠ 2 → other < l.nblocks → after.data other = db.data other := by
  unfold freelistAllocateBlock
  rw [Code.gets_bind, tracks.freelist,
    Code.bind_ok (tracks.modify_root working.wf working.root depth),
    Code.bind_ok (setCtl_run _ db), tracks.same_freelist, Code.gets_bind, tracks.freelist]
  have length : arrayLength db 2 = l.free.length := tracks.free.length
  have notRoot : l.objlist ≠ 2 := working.objlist.1
  rw [length]
  rcases List.eq_nil_or_concat' l.free with none | ⟨rest, last, split⟩
  · have user := working.user
    have grown := working.grown
    have small := working.bounded
    have bounded : growthFits l.nblocks := by
      rw [none] at fits
      exact fits.1
    have grows := lt_grownBlocks small
    have taken : l.take = (l.nblocks,
      { l with
        nblocks := grownBlocks l.nblocks
        free := List.range' (l.nblocks + 1) (grownBlocks l.nblocks - (l.nblocks + 1)) }) := by
      simp [Ledger.take, none]
    rw [if_neg (by simp [none]), Code.gets_bind, tracks.nblocks,
      Code.bind_ok (ioResize_run (by have := bounded.2; omega) tracks.serves.succeeds), taken]
    have resized := tracks.resized working (Nat.le_of_lt grows) bounded.2
    obtain ⟨image, pushed, stack⟩ := pushBlocks_run (edbApi (depth + 1)) resized.freelist
      (l.nblocks + 1) (by rw [← none]; exact resized.free) grows
      (by have := bounded.1; rw [resized.nblocks]; simp only; omega)
      (by have := bounded.2; rw [resized.nblocks]; simp only; omega)
    rw [resized.nblocks] at stack
    refine ⟨_, by rw [Code.bind_ok pushed]; rfl, resized.write_free notRoot stack, ⟨rfl, rfl⟩, ?_⟩
    intro other different inside
    rw [Db.write_data_of_ne different, tracks.resized_data small bounded.2 inside (by omega)]
  · have taken : l.take = (last, { l with free := rest }) := by
      simp [Ledger.take, split]
    have stack := tracks.free
    rw [split] at stack
    obtain ⟨image, popped, shorter⟩ := stack.pop (edbApi (depth + 1))
    rw [if_pos (by simp [split]), Code.gets_bind, tracks.freelist, Code.bind_ok popped, taken]
    refine ⟨db.write 2 image, ?_, tracks.write_free notRoot shorter, ⟨rfl, rfl⟩, ?_⟩
    · rw [word_of_wordBytes (stack.bounded last (by simp))]
      rfl
    · intro other notRoot _
      exact Db.write_data_of_ne notRoot

/-- `freelist_free_block` pushes. -/
theorem freelistFree_run (tracks : Tracks db base l) (wf : l.table.Wf) (root : l.table.get 2 = 1)
    (apart : l.objlist ≠ 2) (depth block : Nat) (user : 4 ≤ block) (bounded : block < 4294967296)
    (room : l.free.length < 1021) :
    ∃ after, freelistFreeBlock (edbApi (depth + 1)) block db = .ok () after ∧
      Tracks after base (l.giveBack block) ∧ db.SameHandles after ∧
      ∀ other, other ≠ 2 → after.data other = db.data other := by
  obtain ⟨image, pushed, stack⟩ :=
    tracks.free.push (edbApi (depth + 1)) room bounded
  refine ⟨db.write 2 image, ?_, tracks.write_free apart stack, ⟨rfl, rfl⟩, fun other different =>
    Db.write_data_of_ne different⟩
  unfold freelistFreeBlock
  rw [if_neg (by simp only [edbUserData]; omega), Code.gets_bind, tracks.freelist,
    Code.bind_ok (tracks.modify_root wf root depth), Code.bind_ok (setCtl_run _ db),
    tracks.same_freelist, Code.gets_bind, tracks.freelist, pushed]

/-- `edb_allocate_block` returns the block that `allocate` returns. -/
theorem allocate_run (tracks : Tracks db base l) (working : l.Working base) (depth : Nat)
    (fits : takesFit 1 l.free.length l.nblocks) :
    ∃ after, (edbApi (depth + 2)).allocate db = .ok l.allocate.1 after ∧
      Tracks after base l.allocate.2 ∧ db.SameHandles after ∧
      ∀ other, other ≠ 2 → other < l.nblocks → after.data other = db.data other := by
  obtain ⟨middle, taken, tracked, handles, kept⟩ := tracks.freelistAllocate_run working depth fits
  obtain ⟨table, effect, changed⟩ :=
    working.taken_effect (Ledger.take_spec working.bounded fits) allocated
  have same : l.take.2.table = l.table := (Ledger.take_spec working.bounded fits).table
  obtain ⟨after, set, final, data, later⟩ := tracked.txnSet_run (by rw [same]; exact effect.ran)
  refine ⟨after, ?_, ?_, handles.trans later, ?_⟩
  · change txnAllocateBlock (edbApi (depth + 1)) db = _
    unfold txnAllocateBlock
    rw [Code.bind_ok (requireTxn_run tracks.txn), Code.bind_ok taken, Code.bind_ok set]
    rfl
  · rw [Ledger.allocate, changed]
    exact final
  · rw [data]
    exact kept

/-- `edb_modify_block` of a block that is already writable. -/
theorem modify_run_same (tracks : Tracks db base l) (wf : l.table.Wf) (depth : Nat)
    (used : l.table.get block ≠ 0) (usable : l.table.get block ≠ freed) :
    (edbApi (depth + 1)).modify block db = .ok block db := by
  change txnModifyBlock (edbApi depth) block db = _
  unfold txnModifyBlock
  rw [Code.bind_ok (requireTxn_run tracks.txn), Code.bind_ok (tracks.txnGet_run wf block)]
  by_cases new : l.table.get block = allocated
  · rw [if_pos new]
    rfl
  · rw [if_neg new, if_neg usable, if_pos used]
    rfl

/-- `edb_modify_block` of an older block copies it. -/
theorem modify_run_copy (tracks : Tracks db base l) (working : l.Working base) (depth : Nat)
    (fresh : l.table.get block = 0) (inside : block < l.nblocks) (other : block ≠ 2)
    (fits : takesFit 1 l.free.length l.nblocks) :
    ∃ after, (edbApi (depth + 2)).modify block db = .ok l.take.1 after ∧
      Tracks after base (l.take.2.set l.take.1 block) ∧ db.SameHandles after ∧
      after.data l.take.1 = db.data block ∧
      ∀ other, other ≠ 2 → other ≠ l.take.1 → other < l.nblocks →
        after.data other = db.data other := by
  have taken := Ledger.take_spec working.bounded fits
  have range := working.taken_range taken
  obtain ⟨middle, ran, tracked, handles, kept⟩ := tracks.freelistAllocate_run working depth fits
  obtain ⟨table, effect, changed⟩ := working.taken_effect taken block
  have notObjlist : l.take.1 ≠ l.take.2.objlist := by
    rw [taken.objlist]
    rintro same
    rcases taken.fresh with free | ⟨beyond, _⟩
    · exact working.objlist.2.2 (same ▸ free)
    · have := working.objlist.2.1
      omega
  have copied : Tracks (middle.write l.take.1 (middle.data block)) base l.take.2 :=
    tracked.write range.1 notObjlist _
  obtain ⟨after, set, final, data, later⟩ :=
    copied.txnSet_run (by rw [taken.table]; exact effect.ran)
  refine ⟨after, ?_, ?_, handles.trans ⟨later.handles, later.txnId⟩, ?_, ?_⟩
  · change txnModifyBlock (edbApi (depth + 1)) block db = _
    unfold txnModifyBlock
    rw [Code.bind_ok (requireTxn_run tracks.txn),
      Code.bind_ok (tracks.txnGet_run working.wf block), fresh, if_neg (by decide),
      if_neg (by decide), if_neg (by simp), Code.bind_ok ran]
    rw [Code.bind_ok (copyMapped_run tracked.serves.protWrite _ _), Code.bind_ok set]
    rfl
  · rw [changed]
    exact final
  · rw [data, Db.write_data_self, kept block other inside]
  · intro third notRoot different within
    rw [data, Db.write_data_of_ne different, kept third notRoot within]

/-- `edb_free_block` of a held block. -/
theorem free_run (tracks : Tracks db base l) (sound : l.Sound others base c) (held : block ∈ c.held)
    (depth : Nat) (room : l.table.get block ≠ 0 → l.free.length < 1021) :
    ∃ after, (edbApi (depth + 2)).free block db = .ok () after ∧
      Tracks after base (l.freeBlock block) ∧ db.SameHandles after ∧
      ∀ other, other ≠ 2 → after.data other = db.data other := by
  have inside := sound.range block (by simp [held])
  have bounded := sound.bounded
  have notRoot : l.objlist ≠ 2 := by
    rcases sound.table.objlist with h | ⟨h, _⟩ <;> omega
  have start : (edbApi (depth + 2)).free block db = _ :=
    (Code.bind_ok (requireTxn_run tracks.txn)).trans
      (Code.bind_ok (tracks.txnGet_run sound.table.wf block))
  rw [start]
  cases (sound.freeBlock held).1 with
  | marked state effect eq =>
      obtain ⟨after, set, tracked, data, handles⟩ := tracks.txnSet_run effect.ran
      refine ⟨after, ?_, eq ▸ tracked, handles, fun other _ => by rw [data]⟩
      rw [state]
      exact set
  | dropped state effect eq =>
      have used : l.table.get block ≠ 0 := by rw [state]; decide
      obtain ⟨middle, set, tracked, data, handles⟩ := tracks.txnSet_run effect.ran
      obtain ⟨after, pushed, final, later, kept⟩ := tracked.freelistFree_run
        effect.wf (by rw [effect.get, if_neg (by omega), sound.table.root]) notRoot
          depth block inside.1
        (by omega) (room used)
      refine ⟨after, ?_, eq ▸ final, handles.trans later,
        fun other apart => by rw [kept other apart, data]⟩
      rw [if_pos state, Code.bind_ok set]
      exact Code.ignore_ok pushed
  | undone user low first second eq =>
      have notAllocated : l.table.get block ≠ allocated := by simp only [allocated]; omega
      have notFreed : l.table.get block ≠ freed := by simp only [freed]; omega
      obtain ⟨one, setOne, trackedOne, dataOne, handlesOne⟩ := tracks.txnSet_run first.ran
      obtain ⟨two, setTwo, trackedTwo, dataTwo, handlesTwo⟩ := trackedOne.txnSet_run second.ran
      obtain ⟨after, pushed, final, later, kept⟩ := trackedTwo.freelistFree_run
        second.wf (by rw [second.get, if_neg (by omega), first.get, if_neg (by omega),
          sound.table.root]) notRoot depth block inside.1 (by omega) (room (by omega))
      refine ⟨after, ?_, eq ▸ final, (handlesOne.trans handlesTwo).trans later,
        fun other apart => by rw [kept other apart, dataTwo, dataOne]⟩
      rw [if_neg notAllocated, if_neg notFreed, if_pos (by omega), Code.bind_ok setOne,
        Code.bind_ok setTwo]
      exact Code.ignore_ok pushed

/-- A change of the working copy of the object list. -/
theorem write_objects (tracks : Tracks db base l) (copied : 4 ≤ l.objlist) {image : Image}
    {objects : List Nat} (stack : Stack image objects) :
    Tracks (db.write l.objlist image) base { l with objects := objects } := by
  refine ⟨tracks.serves.same_mapping rfl, tracks.nblocks, tracks.freelist, tracks.objlist,
    tracks.txn, ?_, ?_, ?_, ?_⟩
  · rw [Db.write_data_of_ne (by omega)]
    exact tracks.free
  · rw [Db.write_data_self]
    exact stack
  · rw [Db.write_data_of_ne (by omega)]
    exact tracks.baseFree
  · rw [Db.write_data_of_ne (by omega)]
    exact tracks.baseObjects

/-- The object list is made writable. -/
theorem openObjlist_run (tracks : Tracks db base l) (sound : l.Sound others base c) (depth : Nat)
    (fits : l.table.get l.objlist = 0 → takesFit 1 l.free.length l.nblocks) :
    ∃ middle, (edbApi (depth + 2)).modify l.objlist db = .ok l.openObjlist.objlist middle ∧
      Tracks (middle.withCtl fun ctl => { ctl with objlist := l.openObjlist.objlist }) base
        l.openObjlist ∧ db.SameHandles middle ∧
      ∀ other, other ≠ 2 → other ≠ l.openObjlist.objlist → other < l.nblocks →
        middle.data other = db.data other := by
  unfold Ledger.openObjlist Ledger.modify
  by_cases primary : l.table.get l.objlist = 0
  · rw [if_pos primary]
    have old := sound.objlist_state.mp primary
    have taken := Ledger.take_spec sound.bounded (fits primary)
    have range := sound.taken_range taken
    have user := sound.begun.user
    have grown := sound.grown
    obtain ⟨middle, ran, tracked, handles, copied, kept⟩ :=
      tracks.modify_run_copy sound.working depth
      primary (by omega) (by omega) (fits primary)
    refine ⟨middle, ran, ?_, handles, kept⟩
    refine ⟨tracked.serves.same_mapping rfl, tracked.nblocks, tracked.freelist, rfl, tracked.txn,
      tracked.free, ?_, tracked.baseFree, tracked.baseObjects⟩
    change Stack (middle.data l.take.1) l.take.2.objects
    rw [copied, taken.objects]
    exact tracks.objects
  · rw [if_neg primary]
    obtain ⟨user, state⟩ := sound.table.objlist.resolve_left
      (fun h => primary (sound.objlist_state.mpr h))
    refine ⟨db, tracks.modify_run_same sound.table.wf (depth + 1) primary (by rw [state]; decide),
      ?_, Db.SameHandles.refl db, fun _ _ _ _ => rfl⟩
    have same : (db.withCtl fun ctl => { ctl with objlist := l.objlist }) = db := by
      obtain ⟨data, ctl⟩ := db
      have here : ctl.objlist = l.objlist := tracks.objlist
      simp [Db.withCtl, ← here]
    change Tracks (db.withCtl fun ctl => { ctl with objlist := l.objlist }) base l
    rw [same]
    exact tracks

/-- `edb_array_create` returns a handle of a new object with an empty root. -/
theorem create_run (tracks : Tracks db base l) (sound : l.Sound others base c)
    (depth itemSize : Nat) (fits : l.CreateFits) :
    ∃ after, edbArrayCreate (depth + 2) itemSize db = .ok db.ctl.handles.length after ∧
      Tracks after base l.create.2 ∧
      after.ctl.handles = db.ctl.handles ++ [⟨l.objects.length, db.ctl.txnId, l.create.1⟩] ∧
      after.ctl.txnId = db.ctl.txnId ∧ after.data l.create.1 = emptyArray itemSize ∧
      ∀ other, other ≠ 2 → other ≠ l.create.1 → other ≠ l.create.2.objlist → other < l.nblocks →
        after.data other = db.data other := by
  obtain ⟨middle, opened, tracked, handles, kept⟩ := tracks.openObjlist_run sound depth fits.opens
  obtain ⟨copied, objects, grown⟩ := sound.opened fits.opens
  have openSound := sound.openObjlist fits.opens
  have taken := Ledger.take_spec openSound.bounded fits.allocates
  have range := openSound.taken_range taken
  obtain ⟨later, allocated, tracked2, handles2, kept2⟩ :=
    tracked.allocate_run openSound.working depth fits.allocates
  have objlist : l.openObjlist.allocate.2.objlist = l.openObjlist.objlist := taken.objlist
  have listed : l.openObjlist.allocate.2.objects = l.objects := taken.objects.trans objects
  have bounded : l.openObjlist.allocate.1 < 4294967296 := by
    have := taken.bounded
    have := range.2.1
    simp only [Ledger.allocate]
    omega
  obtain ⟨image, pushed, stack⟩ := tracked2.objects.push (edbApi (depth + 2))
    (by rw [listed]; exact fits.lists) bounded
  have apart : l.openObjlist.allocate.1 ≠ l.openObjlist.objlist := by
    intro same
    have zero := range.2.2.2
    change l.openObjlist.table.get l.openObjlist.allocate.1 = 0 at zero
    rw [same] at zero
    have := openSound.objlist_state.mp zero
    omega
  have written : Tracks (later.write l.openObjlist.allocate.2.objlist image) base l.create.2 :=
    tracked2.write_objects (by rw [objlist]; exact copied) stack
  have handlesLater : later.ctl.handles = db.ctl.handles := by
    rw [handles2.handles]; exact handles.handles
  have txnLater : later.ctl.txnId = db.ctl.txnId := by rw [handles2.txnId]; exact handles.txnId
  -- the handle, and then the bytes of the root
  let created : EdbDb := (later.write l.openObjlist.allocate.2.objlist image).withCtl fun ctl =>
    { ctl with handles := ctl.handles ++ [⟨l.objects.length, db.ctl.txnId, l.create.1⟩] }
  let opened' : EdbDb := middle.withCtl fun ctl => { ctl with objlist := l.openObjlist.objlist }
  have length : arrayLength opened' opened'.ctl.objlist = l.objects.length := by
    rw [← objects]
    exact tracked.objects.length
  have number : opened'.ctl.txnId = db.ctl.txnId := handles.txnId
  have ran : objCreate (edbApi (depth + 2)) db =
      .ok (db.ctl.handles.length, l.create.1) created := by
    unfold objCreate
    rw [Code.gets_bind, tracks.objlist, Code.bind_ok opened, Code.bind_ok (setCtl_run _ middle),
      Code.gets_bind, Code.gets_bind, length, Code.bind_ok allocated, Code.gets_bind,
      tracked2.objlist, Code.bind_ok (Code.onError_ok pushed), Code.bind_ok (newHandle_run _ _),
      Db.write_ctl, handlesLater, number]
    rfl
  have tracks4 : Tracks created base l.create.2 :=
    ⟨written.serves.same_mapping rfl, written.nblocks, written.freelist, written.objlist,
      written.txn, written.free, written.objects, written.baseFree, written.baseObjects⟩
  refine ⟨created.write l.create.1 (emptyArray itemSize), ?_, ?_, ?_, ?_,
    Db.write_data_self _ _ _, ?_⟩
  · unfold edbArrayCreate
    rw [Code.bind_ok ran]
    exact Code.bind_ok (arrayInit_run _ _ _)
  · exact tracks4.write range.1 (by rw [show l.create.2.objlist = _ from objlist]; exact apart) _
  · rw [Db.write_ctl]
    change later.ctl.handles ++ _ = _
    rw [handlesLater]
  · exact txnLater
  · intro other notRoot notNew notList inside
    have notList' : other ≠ l.openObjlist.objlist := by
      rw [← objlist]
      exact notList
    rw [Db.write_data_of_ne notNew]
    change (later.write l.openObjlist.allocate.2.objlist image).data other = _
    rw [Db.write_data_of_ne (by rw [objlist]; exact notList'), kept2 other notRoot (by omega)]
    exact kept other notRoot notList' inside

end Tracks

end EverDb
