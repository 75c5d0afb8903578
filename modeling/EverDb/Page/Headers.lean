import EverDb.Array.Model
import EverDb.Page.Sequence

/-!
# The header that lies on the page table

An array keeps its header, `item_size` and `length`, in the words of the last index
entries. The loop that grows `index_blocks` does not stop before them: after
512 + 509 * 1024 blocks it takes the item size for the number of an index block.
-/

namespace EverDb

open Foundation

variable {ρ : Type} {api : BlockApi (Db ρ)} {contract : BlockContract api} {own : Ownership}
  {db : Db ρ} {root target : Nat} {blocks indexes : List Nat}

/-- A call of `page_resize` that spares the array header: it leaves the root alone
when it fails, and otherwise reaches the target and keeps the header and the earlier
indexes. -/
inductive HeaderSpared (root target : Nat) (db : Db ρ) : Outcome (Db ρ) Unit → Prop
  | refused (code : Int) (after : Db ρ) (same : after.data root = db.data root) :
      HeaderSpared root target db (.error code after)
  | resized (after : Db ρ) (count : ptNblocks after root = target)
      (itemSize : ptItemSize after root = ptItemSize db root)
      (length : arrayLength after root = arrayLength db root)
      (mapped : ∀ i, i < ptNblocks db root → i < target →
        pageReadHostIndex after root i = pageReadHostIndex db root i) :
      HeaderSpared root target db (.ok () after)

/-- With the bytes of the header as they were and the earlier blocks still listed. -/
theorem HeaderSpared.of_table {after : Db ρ} {blocks' indexes' : List Nat}
    (table : PageTable db root 509 blocks indexes)
    (tableAfter : PageTable after root 509 blocks' indexes') (count : blocks'.length = target)
    (header : ∀ offset, 4 * (512 + 509) ≤ offset → offset < 4092 →
      after.data root offset = db.data root offset)
    (first : ∀ i, i < target → i < blocks.length → blocks'[i]? = blocks[i]?) :
    HeaderSpared root target db (.ok () after) := by
  constructor
  · rw [ptNblocks, tableAfter.count, count]
  · rw [ptItemSize, ptItemSize, header 4084 (by omega) (by omega)]
  · exact Image.word_congr fun step small => header (4 * 1022 + step) (by omega) (by omega)
  · intro i inside below
    rw [ptNblocks, table.count] at inside
    have found := List.getElem?_eq_getElem inside
    rw [table.read found, tableAfter.read ((first i below inside).trans found)]

/-- `page_resize` spares the header of an array up to 512 + 509 * 1024 blocks. -/
theorem pageResize_headerSpared (held : HeldTable contract own db root 509 blocks indexes)
    (fits : target ≤ 521728)
    (room : 2 * (target - blocks.length) + (blocks.length - target) ≤ own.room) :
    HeaderSpared root target db (pageResize api root target db) := by
  by_cases more : blocks.length ≤ target
  · obtain ⟨after, ran, later, blocks', indexes', grown⟩ :=
      pageResize_grow held more (by omega) (by omega)
    rw [ran]
    refine .of_table held.table grown.held.table grown.length grown.change.header ?_
    intro i _ inside
    obtain ⟨added, rfl⟩ := grown.extends_
    rw [List.getElem?_append_left inside]
  · obtain ⟨after, ran, later, indexes', shrunk⟩ :=
      pageResize_shrink held (show target ≤ blocks.length by omega) (by omega)
    rw [ran]
    refine .of_table held.table shrunk.held.table ?_ shrunk.change.header ?_
    · rw [List.length_take]
      omega
    · intro i inside _
      rw [List.getElem?_take_of_lt inside]

/-- Growing an array root until it has an index block, over the allocator of the unit tests. -/
theorem pageResize_headerSpared_mock :
    HeaderSpared 1 514 (mockTable 1026) (pageResize mockApi 1 514 (mockTable 1026)) :=
  pageResize_headerSpared ((mockTable_held (by decide)).narrow (by decide) (by decide))
    (by decide) (by decide)

section Overgrown

variable {answer : List BlockEvent → Option Nat} {fresh : FreshAnswers answer}
  {grants : Grants answer}
  {full : Db (List BlockEvent)}

/-- The first round past the last index entry of an array: the word read for an index
block is the item size. -/
theorem growIndexBlocks_full {new : Nat} (count : (full.data root).word 1023 = 521728)
    (size : (full.data root).word 1021 = root)
    (numbered : new < 4294967296) (positive : root ≠ 0) (granted : answer full.ctl = some new) :
    ∃ after, growIndexBlocks (recorder answer) root full = .ok () after ∧
      ptNblocks after root = 521729 ∧ (after.data root).word 0 = new := by
  have place : index0 521728 = 509 := rfl
  have entry : index1 521728 = 0 := rfl
  have word : indexWord 509 = 1021 := rfl
  set recorded := full.setWord root 1021 root with recordedDef
  have ran : (recorder answer).allocate recorded =
      .ok new { recorded with ctl := .taken new :: recorded.ctl } := by
    simp only [recorder, recordedDef, Db.setWord_ctl, granted]
  set taken : Db (List BlockEvent) :=
    { recorded with ctl := .taken new :: recorded.ctl } with takenDef
  have same : taken.data root = (full.data root).setWord 1021 root := by
    rw [takenDef, recordedDef, Db.setWord_data_self]
  have counted : ((taken.setWord root 0 new).data root).word 1023 = 521728 := by
    rw [Db.setWord_data_self, Image.word_setWord_of_ne (by decide), same,
      Image.word_setWord_of_ne (by decide), count]
  refine ⟨(taken.setWord root 0 new).setWord root 1023 521729, ?_, ?_, ?_⟩
  · unfold growIndexBlocks
    rw [load_bind, count, place, entry, word, load_bind, size, openIndexBlock, if_neg positive]
    change ((Code.ret root : Code (Db (List BlockEvent)) Nat) >>= _) full = _
    rw [Code.ret_bind, store_bind, ← recordedDef, Code.bind_ok ran, store_bind, load_bind, counted,
      store_run]
    rfl
  · rw [ptNblocks, Db.setWord_data_self, Image.word_setWord_self (by decide)]
  · rw [Db.setWord_data_self, Image.word_setWord_of_ne (by decide), Db.setWord_data_self,
      Image.word_setWord_self numbered]

/-- One block more than the index entries have room for: the entry of the new block
lands in the root when the item size is the root's number. -/
theorem pageResize_overgrows
    (held : HeldTable (recorderContract fresh grants) own full root 509 blocks indexes)
    (length : blocks.length = 521728) (size : (full.data root).word 1021 = root)
    (room : 0 < own.room) :
    ¬HeaderSpared root 521729 full (pageResize (recorder answer) root 521729 full) := by
  have table := held.table
  have valid : RecorderValid own full := held.valid
  have total := valid.room
  obtain ⟨positive, _⟩ := valid.numbers root ((valid.writable root).mp held.writable)
  obtain ⟨new, granted⟩ := grants full.ctl (by omega)
  obtain ⟨unused, _, numbered⟩ := fresh full.ctl new granted
  have count : ptNblocks full root = 521728 := by rw [ptNblocks, table.count, length]
  obtain ⟨after, once, countAfter, first⟩ :=
    growIndexBlocks_full count size numbered (Nat.ne_of_gt positive) granted
  have ran : pageResize (recorder answer) root 521729 full = .ok () after := by
    unfold pageResize
    change ((Code.ret root : Code (Db (List BlockEvent)) Nat) >>= _) full = _
    have grew : Code.whileLoop (fun db => ptNblocks db root < 521729)
        (growIndexBlocks (recorder answer) root)
        4294967296 full = .ok () after := by
      rw [Code.whileLoop_round (by simp [count]) once, Code.whileLoop_skip _]
      simp [countAfter]
    rw [Code.ret_bind, Code.bind_ok (Code.whileLoop_skip _), Code.bind_ok grew,
      Code.bind_ok (Code.whileLoop_skip _), Code.whileLoop_skip _]
    · simp [countAfter]
    · simp [countAfter]
    · simp [count, levelOne]
  rw [ran]
  intro spared
  cases spared with
  | resized _ _ _ _ mapped =>
      -- the first index is mapped to the new block
      obtain ⟨old, found⟩ : ∃ old, blocks[0]? = some old := ⟨_, List.getElem?_eq_getElem (by omega)⟩
      have read := mapped 0 (by omega) (by omega)
      rw [table.read found] at read
      simp only [pageReadHostIndex, countAfter, first] at read
      have here : new = old := by simpa using read
      subst here
      exact unused ((valid.live new).mp (held.live new (by simp [List.mem_of_getElem? found])))

/-- The table that `array_init` leaves. -/
theorem arrayInit_held (fresh : FreshAnswers answer) (grants : Grants answer)
    {before : Db (List BlockEvent)} (itemSize : Nat)
    (out : outstanding before.ctl = [root]) (number : 0 < root ∧ root < 4294967296) :
    ∃ after, arrayInit root itemSize before = .ok () after ∧
      HeldTable (recorderContract fresh grants) (holding before.ctl) after root 509 [] [] ∧
      after.data root = Image.zero.setByte itemSizeByte (UInt8.ofNat itemSize) := by
  have started : HeldTable (recorderContract fresh grants) (holding before.ctl)
      (before.write root Image.zero) root 509 [] [] := pageInit_held (by decide) out number
  have live := ((recorderContract fresh grants).wf started.valid).writable_live _ started.writable
  set after := (before.write root Image.zero).write root
    (((before.write root Image.zero).data root).setByte itemSizeByte (UInt8.ofNat itemSize)) with
    afterDef
  have bytes : after.data root = Image.zero.setByte itemSizeByte (UInt8.ofNat itemSize) := by
    rw [afterDef, Db.write_data_self, Db.write_data_self]
  have word : ∀ i, i ≠ 1021 → (after.data root).word i = 0 := by
    intro i other
    rw [bytes, Image.word_setByte_of_ne (show 4084 / 4 ≠ i by omega), Image.word_zero]
  refine ⟨after, rfl,
    ⟨(recorderContract fresh grants).write started.valid live _, ⟨word 1023 (by decide),
    by decide, by simp, by decide, by simp, by simp, by simp, ?_⟩,
      started.writable, by simp, by simp⟩, bytes⟩
  exact fun j _ below => word _ (by omega)

end Overgrown

/-- An array of 4-byte elements in block 4, resized to as many blocks as its index
entries have room for and then to one more. -/
theorem pageResize_overwrites_root :
    ∃ full, (arrayInit 4 4 >>= fun _ => pageResize (recorder leastUnused) 4 521728)
        ⟨fun _ => Image.zero, [.taken 4]⟩ = .ok () full ∧
      ¬HeaderSpared 4 521729 full (pageResize (recorder leastUnused) 4 521729 full) := by
  have number : 0 < 4 ∧ 4 < 4294967296 := by decide
  have out :
      outstanding (Db.ctl (⟨fun _ => Image.zero, [.taken 4]⟩ : Db (List BlockEvent))) = [4] := rfl
  obtain ⟨started, init, held, bytes⟩ :=
    arrayInit_held leastUnused_fresh leastUnused_grants 4 out number
  have fits : 521728 ≤ 512 + 1024 * 509 := by decide
  obtain ⟨full, ran, later, blocks, indexes, grown⟩ :=
    pageResize_grow held (by simp) fits (by decide)
  refine ⟨full, by rw [Code.bind_ok init, ran], pageResize_overgrows grown.held grown.length ?_ ?_⟩
  · have kept : (full.data 4).word 1021 = (started.data 4).word 1021 :=
      Image.word_congr fun step small => grown.change.header (4 * 1021 + step) (by omega) (by omega)
    rw [kept, bytes]
    decide
  · have left := grown.room
    have total : (holding [BlockEvent.taken 4]).room = 4294967294 := rfl
    simp only [List.length_nil] at left
    omega

end EverDb
