import EverDb.Array.Access
import EverDb.Edb.Open
import EverDb.Txn.Partition

/-!
# When the freelist outgrows its root

While the freelist stays in its root, every call of the allocator returns. The push
that finds the root full turns the freelist into a paged array while it takes the page
from that same array: the page is block zero, the entry on top is lost, and a table
that is rehashed meanwhile hands entries to commit a second time. Once such a freelist
is committed, no later transaction can allocate.
-/

namespace EverDb

open Foundation

variable {others : List Nat} {base : Books} {c : Client} {l : Ledger} {db : EdbDb} {block : Nat}

/-! ## A full freelist -/

/-- The root of a freelist of the 1021 blocks from 4 on. -/
def fullRoot : Image := fun byte =>
  if byte / 4 < 1021 then Image.wordByte (byte / 4 + 4) (byte % 4)
  else if byte = 4084 then 4
  else if byte / 4 = 1022 then Image.wordByte 1021 (byte % 4)
  else 0

theorem fullRoot_stack : Stack fullRoot (List.range' 4 1021) := by
  have element : ∀ i, i < 1021 → fullRoot.slice (i * 4) 4 = wordBytes (i + 4) := by
    intro i small
    refine Image.slice_congr fun step low => ?_
    have place : (i * 4 + step) / 4 = i ∧ (i * 4 + step) % 4 = step := by omega
    have start : (0 + step) / 4 = 0 ∧ (0 + step) % 4 = step := by omega
    simp only [fullRoot, Image.ofWord, Image.setWord, place.1, place.2, start.1, start.2,
      if_pos small, if_true]
  refine ⟨⟨by decide, by decide, by rw [List.length_map, List.length_range']; decide,
    by rw [List.length_map, List.length_range'], fun i bytes found => ?_⟩, fun word member => ?_⟩
  · rw [List.getElem?_map] at found
    by_cases small : i < 1021
    · rw [List.getElem?_range' (by simpa using small), Option.map_some, Option.some.injEq] at found
      rw [element i small, ← found, Nat.one_mul, Nat.add_comm]
    · rw [List.getElem?_eq_none (by rw [List.length_range']; omega)] at found
      cases found
  · have := List.mem_range'_1.mp member
    omega

/-- A file with a full freelist and two blocks in use, open for writing. -/
def fullFile : EdbDb where
  data :=
    fun block => if block = 1 then fullRoot else if block = 3 then emptyArray 4 else Image.zero
  ctl := { closedEdb grantingOs with
    mapped := true
    protWrite := true
    filesize := 4206592
    nblocks := 1027
    freelist := 1
    objlist := 3 }

theorem fullFile_settled : Settled fullFile ⟨1027, List.range' 4 1021, []⟩ :=
  ⟨⟨rfl, rfl, grantingOs_succeeds, rfl⟩, rfl, rfl, rfl, rfl, fullRoot_stack, Stack.empty⟩

theorem fullFile_sound : Books.Sound [] [1026, 1025] ⟨1027, List.range' 4 1021, []⟩ := by
  refine ⟨by decide, by decide, fun block => ?_⟩
  have counted :
      List.count block (List.range' 4 1021) = if 4 ≤ block ∧ block < 1025 then 1 else 0 := by
    rw [List.count_range_1']
  simp only [List.count_append, List.count_cons, List.count_nil, counted, beq_iff_eq, edbUserData]
  split <;> split <;> split <;> split <;> omega

/-- Freeing block 1026 over the full freelist. -/
def freeLast : Code EdbDb Unit := do
  edbTxnBegin 0
  edbFreeBlock 1 1026

/-- The table has two entries when the loop of commit starts. The push of block 1026
finds the root full, and the table is rehashed while the loop is at its slot: the loop
meets the entry again, and block 1026 is on the freelist twice. -/
theorem commit_repeats_entry : ∃ begun after, freeLast fullFile = .ok () begun ∧
    (currentBlocks begun).items = [(2, 1), (1026, freed)] ∧
    txnCommitMaster (edbApi 2) begun = .ok () after ∧
    -- the freelist is paged, its page is block 0, and its last two entries are 1026
    ptNblocks after 1 = 1 ∧ (after.data 1).word 0 = 0 ∧ arrayLength after 1 = 1022 ∧
    (after.data 0).word 1020 = 1026 ∧ (after.data 0).word 1021 = 1026 := by
  have opened : (freeLast fullFile).passes (fun _ begun =>
      decide ((currentBlocks begun).items = [(2, 1), (1026, freed)]) &&
      (txnCommitMaster (edbApi 2) begun).passes fun _ after =>
        decide (ptNblocks after 1 = 1 ∧ (after.data 1).word 0 = 0 ∧ arrayLength after 1 = 1022 ∧
          (after.data 0).word 1020 = 1026 ∧ (after.data 0).word 1021 = 1026)) = true := by
    decide +kernel
  obtain ⟨_, begun, ran, checked⟩ := Outcome.of_passes opened
  rw [Bool.and_eq_true, decide_eq_true_iff] at checked
  obtain ⟨_, after, committed, state⟩ := Outcome.of_passes checked.2
  exact ⟨begun, after, ran, checked.1, committed, of_decide_eq_true state⟩

/-! ## The next transaction -/

variable {ts : TxnState} {older : List TxnState} {root page : Nat}

/-- A block that the current table records is writable. -/
theorem txnModify_recorded {state : Nat} (api : BlockApi EdbDb) (txn : db.ctl.txn = ts :: older)
    (read : memHashGet ts.blocks block = some state) (used : state ≠ 0) (usable : state ≠ freed) :
    txnModifyBlock api block db = .ok block db := by
  unfold txnModifyBlock
  rw [Code.bind_ok (requireTxn_run txn), Code.bind_ok (txnGet_of_get txn read)]
  by_cases new : state = allocated
  · rw [if_pos new]
    rfl
  · rw [if_neg new, if_neg usable, if_pos used]
    rfl

/-- A paged freelist whose last entry lies in a page that the current table does not
record: to take the entry, the page has to be copied, for which a block is taken. -/
structure Trapped (db : EdbDb) (root page : Nat) : Prop where
  freelist : db.ctl.freelist = root
  txn : ∃ ts older state, db.ctl.txn = ts :: older ∧
    memHashGet ts.blocks root = some state ∧ state ≠ 0 ∧
    state ≠ freed ∧ memHashGet ts.blocks page = some 0
  itemSize : ptItemSize db root = 4
  length : 0 < arrayLength db root
  paged : (arrayLength db root - 1) / 1024 < ptNblocks db root
  direct : (arrayLength db root - 1) / 1024 < 512
  page : (db.data root).word ((arrayLength db root - 1) / 1024) = page

namespace Trapped

/-- Without a page to read it from, the last entry is not read. -/
theorem pop (trapped : Trapped db root page) {api : BlockApi EdbDb}
    (modifyRoot : api.modify root db = .ok root db)
    (modifyPage : api.modify page db = .stuck) : arrayPop api root db = .stuck := by
  have positive : 0 < (db.data root).word lengthWord := trapped.length
  have paged : ((db.data root).word lengthWord - 1) / 1024 < (db.data root).word nblocksWord :=
    trapped.paged
  have direct : ((db.data root).word lengthWord - 1) / 1024 < 512 := trapped.direct
  have place : (db.data root).word (((db.data root).word lengthWord - 1) / 1024) = page :=
    trapped.page
  have bounded := (db.data root).word_lt lengthWord
  have last : sub32 ((db.data root).word lengthWord) 1 = (db.data root).word lengthWord - 1 :=
    sub32_of_le positive bounded
  have nblocks : (db.data root).word nblocksWord ≠ 0 := by omega
  have write :
      pageWriteHostIndex api root (((db.data root).word lengthWord - 1) / 1024) db = .stuck := by
    unfold pageWriteHostIndex
    rw [load_bind, if_neg (by omega), if_neg nblocks, if_pos direct, Code.bind_ok modifyRoot,
      load_bind, place, modifyPage]
  have data : arrayData api root ((db.data root).word lengthWord - 1) db = .stuck := by
    unfold arrayData
    rw [load_bind, if_neg (by omega), load_bind, Code.gets_bind, if_neg nblocks, trapped.itemSize,
      Code.bind_ok (divide_run (by decide) db)]
    refine Code.bind_stuck ?_
    unfold orAbort
    rw [show blockSize / 4 = 1024 by rfl, write]
  unfold arrayPop
  rw [load_bind, last]
  refine Code.bind_stuck ?_
  unfold arrayGet
  exact Code.bind_stuck data

/-- `freelist_allocate_block` has no result at any depth of calls: the induction is on
the depth, since copying the page takes a block again. -/
theorem take (trapped : Trapped db root page) (depth : Nat) :
    freelistAllocateBlock (edbApi depth) db = .stuck := by
  obtain ⟨ts, older, state, txn, read, used, usable, unrecorded⟩ := trapped.txn
  have same : (db.withCtl fun ctl => { ctl with freelist := root }) = db := by
    obtain ⟨data, ctl⟩ := db
    have here : ctl.freelist = root := trapped.freelist
    simp [Db.withCtl, ← here]
  have positive := trapped.length
  induction depth with
  | zero =>
      unfold freelistAllocateBlock
      rw [Code.gets_bind]
      exact Code.bind_stuck rfl
  | succ depth ih =>
      have modifyRoot : (edbApi (depth + 1)).modify root db = .ok root db :=
        txnModify_recorded (edbApi depth) txn read used usable
      have modifyPage : (edbApi (depth + 1)).modify page db = .stuck := by
        change txnModifyBlock (edbApi depth) page db = _
        unfold txnModifyBlock
        rw [Code.bind_ok (requireTxn_run txn), Code.bind_ok (txnGet_of_get txn unrecorded),
          if_neg (by decide), if_neg (by decide), if_neg (by simp)]
        exact Code.bind_stuck ih
      unfold freelistAllocateBlock
      rw [Code.gets_bind, trapped.freelist, Code.bind_ok modifyRoot,
        Code.bind_ok (setCtl_run _ db), same,
        Code.gets_bind, trapped.freelist, if_pos positive, Code.gets_bind, trapped.freelist]
      exact Code.bind_stuck (trapped.pop modifyRoot modifyPage)

/-- Neither has `edb_allocate_block`. -/
theorem allocate (trapped : Trapped db root page) (depth : Nat) :
    edbAllocateBlock depth db = .stuck := by
  obtain ⟨ts, older, state, txn, _⟩ := trapped.txn
  cases depth with
  | zero => rfl
  | succ depth =>
      change txnAllocateBlock (edbApi depth) db = _
      unfold txnAllocateBlock
      rw [Code.bind_ok (requireTxn_run txn)]
      exact Code.bind_stuck (trapped.take depth)

/-- Neither has `edb_modify_block` of a block that the transaction has not touched. -/
theorem modify (trapped : Trapped db root page) (txn : db.ctl.txn = ts :: older)
    (read : memHashGet ts.blocks block = some 0) (depth : Nat) :
    edbModifyBlock depth block db = .stuck := by
  cases depth with
  | zero => rfl
  | succ depth =>
      change txnModifyBlock (edbApi depth) block db = _
      unfold txnModifyBlock
      rw [Code.bind_ok (requireTxn_run txn), Code.bind_ok (txnGet_of_get txn read),
        if_neg (by decide), if_neg (by decide), if_neg (by simp)]
      exact Code.bind_stuck (trapped.take depth)

end Trapped

/-- In every run from a new file in which the lists stay in their roots, every call
returns, with calls nested two deep at most. -/
theorem calls_return {os : Os} {depth : Nat} {ops : List Op} {answers : List (Except Int Nat)}
    {last : Session} (succeeds : os.Succeeds) (opened : edbOpenNew (newFile os) = .ok () db)
    (run : Run (depth + 2) (Session.start db []) ops answers last) (op : Op)
    (disciplined : last.client.Disciplined op) (inside : last.Inline op) :
    ∃ answer next, last.step (depth + 2) op = some (answer, next) := by
  obtain ⟨_, _, keeps⟩ := run.keeps (newSession_keeps succeeds opened)
  obtain ⟨next, ran, _⟩ := keeps.step depth op disciplined ((last.inline_iff keeps op).mp inside)
  exact ⟨_, next, ran⟩

/-- Two blocks committed, then a transaction that copies the first and takes a block:
it can copy or free the other, free the copy, or take a block. -/
theorem calls_return_working : ∃ db, edbOpenNew (newFile grantingOs) = .ok () db ∧
    ∀ op ∈ [Op.modify 5, .free 5, .free 6, .allocate], ∃ answers s answer next,
      Run 2 (Session.start db []) [.begin, .allocate, .allocate, .commit, .begin,
        .modify 4, .allocate]
        answers s ∧ s.step 2 op = some (answer, next) := by
  obtain ⟨db, opened, _⟩ := edbOpenNew_run grantingOs_succeeds
  have allowed : ∀ op ∈ [Op.modify 5, .free 5, .free 6, .allocate],
      (Bank.closed ⟨4, [], []⟩).Allows ⟨[], [], [], []⟩
        ([.begin, .allocate, .allocate, .commit, .begin, .modify 4, .allocate] ++ [op]) := by
    decide +kernel
  refine ⟨db, opened, fun op listed => ?_⟩
  obtain ⟨_, whole⟩ := (newSession_keeps grantingOs_succeeds opened).run 0 (allowed op listed)
  obtain ⟨s, answers, run, disciplined, inside, _⟩ := whole.last_call
  obtain ⟨answer, next, ran⟩ := calls_return grantingOs_succeeds opened run op disciplined inside
  exact ⟨answers, s, answer, next, run, ran⟩

/-- Freeing one block over a full freelist, and the next transaction. -/
def freeAndBegin : Code EdbDb Unit := do
  freeLast
  edbTxnCommit 2
  edbTxnBegin 0

/-- After the freelist has outgrown its root and was committed, the next transaction
neither allocates a block nor modifies block 1025, which the client holds. -/
theorem committed_pages_trap : ∃ db, freeAndBegin fullFile = .ok () db ∧
    ∀ depth, edbAllocateBlock depth db = .stuck ∧ edbModifyBlock depth 1025 db = .stuck := by
  have run : (freeAndBegin fullFile).passes (fun _ db =>
      decide (db.ctl.freelist = 2 ∧ db.ctl.txn.length = 1 ∧
        memHashGet (currentBlocks db) 2 = some 1 ∧ memHashGet (currentBlocks db) 0 = some 0 ∧
        memHashGet (currentBlocks db) 1025 = some 0 ∧ ptItemSize db 2 = 4 ∧
        arrayLength db 2 = 1022 ∧
        ptNblocks db 2 = 1 ∧ (db.data 2).word 0 = 0)) = true := by
    decide +kernel
  obtain ⟨_, db, ran, checked⟩ := Outcome.of_passes run
  obtain ⟨freelist, single, root, page, held, itemSize, length, nblocks, first⟩ :=
    of_decide_eq_true checked
  obtain ⟨ts, txn⟩ := List.length_eq_one_iff.mp single
  have blocks : currentBlocks db = ts.blocks := currentBlocks_eq txn
  rw [blocks] at root page held
  have trapped : Trapped db 2 0 := by
    refine ⟨freelist, ⟨ts, [], 1, txn, root, by decide, by decide, page⟩,
      itemSize, ?_, ?_, ?_, ?_⟩ <;>
      rw [length]
    · decide
    · rw [nblocks]
      decide
    · decide
    · exact first
  exact ⟨db, ran, fun depth => ⟨trapped.allocate depth, trapped.modify txn held depth⟩⟩

end EverDb
