import EverDb.MemHash.Resize
import EverDb.Txn.Outgrown

/-!
# The push that finds the freelist root full

A push appends to a freelist that has room in its root. The push that finds the root full
reads a cleared entry as the number of the first page: the freelist then names block
zero, and no longer the block that was on top.
-/

namespace EverDb

open Foundation Foundation.Probing MemHash

variable {t after : MemHash} {k v slot : Nat}

/-! ## A key of zero -/

/-- A store of the key zero into an unused slot does not change where a probe stops. -/
theorem memHashFind_put_zero (unused : (t.entries slot).k = 0) (k h : Nat) :
    ∀ rounds i, memHashFind (t.put slot 0 v) k h rounds i = memHashFind t k h rounds i := by
  have keys : ∀ other, ((t.put slot 0 v).entries other).k = (t.entries other).k := by
    intro other
    by_cases same : other = slot
    · simp [MemHash.put, same, unused]
    · simp [MemHash.put, same]
  intro rounds
  induction rounds with
  | zero => exact fun _ => rfl
  | succ rounds ih =>
      intro i
      unfold memHashFind
      rw [ih (i + 1)]
      simp only [keys]
      rfl

/-- `mem_hash_set` of the key zero: it finds no listed size, or the key reads back and so
does every other that is bound. -/
theorem MemHash.Wf.set_zero (wf : t.Wf) (v : Nat) :
    memHashSet t 0 v = none ∨ ∃ after, memHashSet t 0 v = some after ∧ memHashGet after 0 = some v ∧
      ∀ k, t.get k ≠ 0 → memHashGet after k = some (t.get k) := by
  have sized := wf.sized
  have spare := wf.spare
  have small : 2 * t.count + 1 < 4294967296 := by omega
  have crowded_iff : t.crowded = true ↔ t.capacity < 2 * t.count + 1 := by
    simp only [MemHash.crowded, decide_eq_true_eq]
    rw [u32_of_lt (by omega)]
    omega
  by_cases few : t.count ≤ maxKeys
  swap
  · left
    simp only [maxKeys] at few
    have unlisted : hashSizes.find? (fun size => size ≥ u32 (t.count * 2 + 1)) = none := by
      rw [List.find?_eq_none]
      intro size listed enough
      have top := (hashSizes_range listed).2
      rw [u32_of_lt (by omega), decide_eq_true_eq] at enough
      omega
    change memHashSetWithin (4294967295 + 1) t 0 v = none
    rw [memHashSetWithin, if_pos (crowded_iff.mpr (by omega))]
    unfold memHashResize
    rw [unlisted]
    rfl
  right
  -- the table that the key is stored into
  obtain ⟨larger, chosen, largerWf, spare, same⟩ : ∃ larger,
      (if t.crowded then memHashResize (memHashSetWithin 4294967295) t else some t) =
      some larger ∧ larger.Wf ∧
        2 * larger.count + 1 ≤ larger.capacity ∧ ∀ k, larger.get k = t.get k := by
    by_cases crowded : t.capacity < 2 * t.count + 1
    · obtain ⟨larger, resized, largerWf, spare, perm⟩ := wf.resize_spec crowded few 4294967294
      refine ⟨larger, ?_, largerWf, spare, fun k => ?_⟩
      · rw [if_pos (crowded_iff.mpr crowded)]
        exact resized
      · rw [MemHash.get, Assoc.lookup_perm largerWf.keys_nodup perm]
        rfl
    · refine ⟨t, ?_, wf, by omega, fun _ => rfl⟩
      rw [if_neg (fun full => crowded (crowded_iff.mp full))]
  have counted := largerWf.counted
  have positive : larger.capacity ≠ 0 := by omega
  obtain ⟨count, early, stop⟩ := largerWf.exists_stop (by omega) 0
  have found := memHashFind_of_stopsAt (by omega) stop 4294967296 0 (by omega) (by omega)
  have unused : (larger.entries (path larger.capacity 0 count)).k = 0 := by
    by_contra used
    have inside := path_lt (show 0 < larger.capacity by omega) 0 count
    exact used (stop.stops _ _ (slots_eq_some.mpr ⟨inside, used, rfl⟩))
  refine ⟨larger.put (path larger.capacity 0 count) 0 v, ?_, ?_, ?_⟩
  · change memHashSetWithin (4294967295 + 1) t 0 v = _
    rw [memHashSetWithin]
    by_cases full : t.crowded = true
    · rw [if_pos full] at chosen ⊢
      simp only [chosen, found, Option.bind_eq_bind, Option.bind_some]
    · rw [if_neg full, Option.some.injEq] at chosen
      rw [if_neg full, chosen]
      simp only [found, Option.bind_eq_bind, Option.bind_some]
  · unfold memHashGet
    rw [if_neg (show (larger.put _ 0 v).capacity ≠ 0 from positive), memHashFind_put_zero unused]
    rw [found]
    simp [MemHash.put]
  · intro k bound
    have read := largerWf.get_spec k
    unfold memHashGet at read ⊢
    rw [if_neg positive] at read
    rw [if_neg (show (larger.put _ 0 v).capacity ≠ 0 from positive), memHashFind_put_zero unused]
    obtain ⟨place, stopped, value⟩ := Option.map_eq_some_iff.mp read
    rw [stopped, Option.map_some, Option.some.injEq, ← same k, ← value]
    have apart : place ≠ path larger.capacity 0 count := by
      rintro rfl
      rw [same, largerWf.cleared _ unused] at value
      exact bound value.symm
    simp [MemHash.put, apart]

/-! ## The conversion -/

variable {db : EdbDb} {ts : TxnState} {older : List TxnState} {root block : Nat} {words : List Nat}

/-- A freelist in an open transaction, with its root recorded in the current table. -/
structure OpenFreelist (db : EdbDb) (root : Nat) (ts : TxnState)
    (older : List TxnState) : Prop where
  txn : db.ctl.txn = ts :: older
  freelist : db.ctl.freelist = root
  nonzero : root ≠ 0
  wf : ts.blocks.Wf
  recorded : ts.blocks.get root ≠ 0 ∧ ts.blocks.get root ≠ freed

/-- The root after the elements were moved aside. -/
theorem Stack.cleared {image : Image} (stack : Stack image words) :
    Stack (image.blit 0 Image.zero 0 (1021 * 4)) (List.replicate words.length 0) := by
  have fits := stack.fits
  have array := stack.array
  refine ⟨⟨?_, ?_, ?_, ?_, fun i element found => ?_⟩, fun word member => ?_⟩
  · rw [Image.word_blit_outside (by omega)]
    exact array.count
  · rw [Image.blit_outside (by omega)]
    exact array.itemSize
  · rw [Image.word_blit_outside (by omega), stack.length]
    simp
  · simpa using fits
  · rw [List.getElem?_map] at found
    have inside : i < words.length := by
      by_contra beyond
      rw [List.getElem?_eq_none (by simpa using Nat.le_of_not_lt beyond)] at found
      cases found
    rw [List.getElem?_replicate_of_lt inside, Option.map_some, Option.some.injEq] at found
    rw [← found]
    refine Image.slice_congr fun step low => ?_
    rw [Image.blit_inside (by omega) (by omega)]
    simp [Image.ofWord, Image.setWord, Image.zero, Image.wordByte]
  · rw [List.eq_of_mem_replicate member]
    decide

namespace OpenFreelist

theorem modify_root (opened : OpenFreelist db root ts older) (api : BlockApi EdbDb) :
    txnModifyBlock api root db = .ok root db :=
  txnModify_recorded api opened.txn (opened.wf.get_spec root) opened.recorded.1 opened.recorded.2

/-- The page that the conversion asks for: the cleared entry on top, unless the table has
no room for its key. -/
theorem allocate_cleared (opened : OpenFreelist db root ts older)
    (stack : Stack (db.data root) (List.replicate 1021 0)) (depth : Nat) :
    (edbApi (depth + 1)).allocate db = .stuck ∨
    ∃ image blocks, (edbApi (depth + 1)).allocate db = .ok 0
        ((db.write root image).withCtl fun ctl =>
          { ctl with txn := { ts with blocks := blocks } :: older }) ∧
      Stack image (List.replicate 1020 0) ∧ memHashGet blocks 0 = some allocated ∧
      ∃ state, memHashGet blocks root = some state ∧ state ≠ 0 ∧ state ≠ freed := by
  cases depth with
  | zero =>
      left
      change txnAllocateBlock (edbApi 0) db = _
      unfold txnAllocateBlock freelistAllocateBlock
      rw [Code.bind_ok (requireTxn_run opened.txn)]
      exact Code.bind_stuck rfl
  | succ depth =>
  have split : Stack (db.data root) (List.replicate 1020 0 ++ [0]) := by
    rw [← List.replicate_succ']
    exact stack
  obtain ⟨image, popped, shorter⟩ := split.pop (edbApi (depth + 1))
  have same : (db.withCtl fun ctl => { ctl with freelist := root }) = db := by
    obtain ⟨data, ctl⟩ := db
    have here : ctl.freelist = root := opened.freelist
    simp [Db.withCtl, ← here]
  have modifyRoot : (edbApi (depth + 1)).modify root db = .ok root db :=
    opened.modify_root (edbApi depth)
  have length : arrayLength db root = 1021 := by
    have length := stack.length
    rwa [List.length_replicate] at length
  have taken : freelistAllocateBlock (edbApi (depth + 1)) db = .ok 0 (db.write root image) := by
    unfold freelistAllocateBlock
    rw [Code.gets_bind, opened.freelist, Code.bind_ok modifyRoot,
      Code.bind_ok (setCtl_run _ db), same,
      Code.gets_bind, opened.freelist, if_pos (by omega), Code.gets_bind, opened.freelist,
      Code.bind_ok popped,
      word_of_wordBytes (by decide)]
    rfl
  have allocates : (edbApi (depth + 2)).allocate db =
      (txnSet 0 allocated >>= fun _ => pure 0) (db.write root image) := by
    change txnAllocateBlock (edbApi (depth + 1)) db = _
    unfold txnAllocateBlock
    rw [Code.bind_ok (requireTxn_run opened.txn), Code.bind_ok taken]
  have stored : txnSet 0 allocated (db.write root image) =
      (Code.ofOption (memHashSet ts.blocks 0 allocated) >>= fun blocks =>
        setCtl fun ctl => { ctl with txn := { ts with blocks := blocks } :: older })
          (db.write root image) :=
    txnSet_eq (by rw [Db.write_ctl, opened.txn]) 0 allocated
  rw [allocates]
  rcases opened.wf.set_zero allocated with full | ⟨blocks, set, zero, kept⟩
  · left
    rw [full] at stored
    exact Code.bind_stuck stored
  · right
    rw [set, Code.ofOption_bind_some, setCtl_run] at stored
    refine ⟨image, blocks, ?_, shorter, zero, _, kept root opened.recorded.1, opened.recorded⟩
    rw [Code.bind_ok stored]
    rfl

end OpenFreelist

/-- The end of `array_push`: the length is raised and the entry stored. -/
def storeLast (api : BlockApi EdbDb) (root : Nat) (buffer : Image) : Code EdbDb Unit := do
  let length ← load root lengthWord
  store root lengthWord (u32 (length + 1))
  let length ← load root lengthWord
  arraySet api root (sub32 length 1) buffer

/-- A freelist whose only page is block zero. -/
structure Converted (db : EdbDb) (root length : Nat) : Prop where
  freelist : db.ctl.freelist = root
  txn : ∃ ts older state, db.ctl.txn = ts :: older ∧ memHashGet ts.blocks 0 = some allocated ∧
    memHashGet ts.blocks root = some state ∧ state ≠ 0 ∧ state ≠ freed
  nblocks : (db.data root).word 1023 = 1
  page : (db.data root).word 0 = 0
  itemSize : ptItemSize db root = 4
  length : (db.data root).word 1022 = length

namespace Converted

variable {length : Nat}

/-- Block zero is the page, and the table has it as allocated. -/
theorem pageWrite (converted : Converted db root length) (depth : Nat) :
    pageWriteHostIndex (edbApi (depth + 1)) root 0 db = .ok 0 db := by
  obtain ⟨ts, older, state, txn, zero, read, used, usable⟩ := converted.txn
  have modifyRoot : (edbApi (depth + 1)).modify root db = .ok root db :=
    txnModify_recorded (edbApi depth) txn read used usable
  have modifyPage : (edbApi (depth + 1)).modify 0 db = .ok 0 db :=
    txnModify_recorded (edbApi depth) txn zero (by decide) (by decide)
  unfold pageWriteHostIndex
  rw [load_bind, converted.nblocks, if_neg (by decide), if_neg (by decide), if_pos (by decide),
    Code.bind_ok modifyRoot, load_bind, converted.page, modifyPage]

/-- A write to another block. -/
theorem write (converted : Converted db root length) (apart : block ≠ root) (image : Image) :
    Converted (db.write block image) root length := by
  have same : (db.write block image).data root = db.data root := Db.write_data_of_ne (Ne.symm apart)
  exact ⟨converted.freelist, converted.txn, same ▸ converted.nblocks, same ▸ converted.page,
    by rw [ptItemSize, same]; exact converted.itemSize, same ▸ converted.length⟩

/-- The end of a push, when the array has room: the entry is stored in the page. -/
theorem storeLast (converted : Converted db root length) (nonzero : root ≠ 0)
    (room : length < 1024) (depth : Nat) (buffer : Image) :
    ∃ after, EverDb.storeLast (edbApi (depth + 1)) root buffer db = .ok () after ∧
      Converted after root (length + 1) ∧ after.ctl.nblocks = db.ctl.nblocks := by
  let longer : EdbDb := db.setWord root 1022 (length + 1)
  have convertedLonger : Converted longer root (length + 1) := by
    have root' : longer.data root = (db.data root).setWord 1022 (length + 1) :=
      Db.setWord_data_self _ _ _ _
    refine ⟨converted.freelist, converted.txn, ?_, ?_, ?_, ?_⟩
    · rw [root', Image.word_setWord_of_ne (by decide)]
      exact converted.nblocks
    · rw [root', Image.word_setWord_of_ne (by decide)]
      exact converted.page
    · rw [ptItemSize, root', Image.setWord_byte_of_ne (by decide)]
      exact converted.itemSize
    · rw [root', Image.word_setWord_self (by omega)]
  have place :
      arrayData (edbApi (depth + 1)) root length longer = .ok (some (0, length * 4)) longer := by
    have divideBlock : divide blockSize 4 longer = .ok 1024 longer := divide_run (by decide) longer
    have page : orAbort (pageWriteHostIndex (edbApi (depth + 1)) root (length / 1024))
        longer = .ok 0 longer := by
      unfold orAbort
      rw [Nat.div_eq_of_lt room, convertedLonger.pageWrite depth]
    unfold arrayData
    rw [load_bind, convertedLonger.length, if_neg (by omega), load_bind,
      convertedLonger.nblocks, Code.gets_bind,
      convertedLonger.itemSize, if_neg (by decide), Code.bind_ok divideBlock,
        Code.bind_ok page, Code.gets_bind,
      convertedLonger.itemSize, Nat.mod_eq_of_lt room]
    rfl
  have last : sub32 (length + 1) 1 = length := sub32_of_le (by omega) (by omega)
  refine ⟨longer.write 0 ((longer.data 0).blit (length * 4) buffer 0 4), ?_,
    convertedLonger.write (Ne.symm nonzero) _, rfl⟩
  unfold EverDb.storeLast
  rw [load_bind, converted.length, u32_of_lt (by omega), store_bind]
  change (load root lengthWord >>= fun length =>
    arraySet (edbApi (depth + 1)) root (sub32 length 1) buffer) longer = _
  rw [load_bind, convertedLonger.length, last]
  unfold arraySet
  rw [Code.bind_ok place]
  change Outcome.ok ()
    (longer.write 0 ((longer.data 0).blit (length * 4) buffer 0 (ptItemSize longer root))) = _
  rw [convertedLonger.itemSize]

/-- A push while the page has room. -/
theorem push (converted : Converted db root length) (nonzero : root ≠ 0)
    (room : length < 1024) (depth : Nat) (buffer : Image) :
    ∃ after, arrayPush (edbApi (depth + 1)) root buffer db = .ok () after ∧
      Converted after root (length + 1) ∧ after.ctl.nblocks = db.ctl.nblocks := by
  have capacity : arrayCapacity root db = .ok 1024 db := by
    have divideBlock : divide blockSize 4 db = .ok 1024 db := divide_run (by decide) db
    unfold arrayCapacity
    rw [load_bind, converted.nblocks, Code.gets_bind, converted.itemSize, if_neg (by decide),
      Code.bind_ok divideBlock]
    rfl
  obtain ⟨after, stored, longer, blocks⟩ := converted.storeLast nonzero room depth buffer
  refine ⟨after, ?_, longer, blocks⟩
  unfold arrayPush
  rw [load_bind, converted.length, Code.bind_ok capacity, u32_of_lt (by omega), if_neg (by omega)]
  exact stored

/-- The page table of such a freelist starts with block zero. -/
theorem first_page {limit : Nat} {pages indexes : List Nat} (converted : Converted db root length)
    (table : PageTable db root limit pages indexes) : pages.head? = some 0 := by
  have count := table.count
  rw [converted.nblocks] at count
  obtain ⟨page, rfl⟩ := List.length_eq_one_iff.mp count.symm
  have first := table.direct 0 page (by decide) rfl
  rw [converted.page] at first
  rw [← first]
  rfl

end Converted

/-- `page_resize` takes block zero for the first page. -/
theorem OpenFreelist.pageResize_cleared (opened : OpenFreelist db root ts older)
    (stack : Stack (db.data root) (List.replicate 1021 0)) (depth : Nat) :
    pageResize (edbApi (depth + 1)) root 1 db = .stuck ∨
    ∃ after, pageResize (edbApi (depth + 1)) root 1 db = .ok () after ∧ Converted after root 1020 ∧
      after.ctl.nblocks = db.ctl.nblocks := by
  have count : (db.data root).word 1023 = 0 := stack.array.count
  have modifyRoot : (edbApi (depth + 1)).modify root db = .ok root db :=
    opened.modify_root (edbApi depth)
  rcases opened.allocate_cleared stack depth with
    stuck | ⟨image, blocks, allocated, shorter, zero, state, read, used, usable⟩
  · left
    have grown : growDataBlocks (edbApi (depth + 1)) root db = .stuck := by
      unfold growDataBlocks
      exact Code.bind_stuck stuck
    unfold pageResize
    rw [Code.bind_ok modifyRoot]
    exact Code.bind_stuck (Code.whileLoop_stuck (by simp [ptNblocks, count]) grown)
  right
  let taken : EdbDb := (db.write root image).withCtl fun ctl =>
    { ctl with txn := { ts with blocks := blocks } :: older }
  let after : EdbDb := (taken.setWord root 1023 1).setWord root 0 0
  have takenRoot : taken.data root = image := Db.write_data_self db root image
  have afterRoot : after.data root = (image.setWord 1023 1).setWord 0 0 := by
    change ((taken.setWord root 1023 1).setWord root 0 0).data root = _
    rw [Db.setWord_data_self, Db.setWord_data_self, takenRoot]
  have grown : growDataBlocks (edbApi (depth + 1)) root db = .ok () after := by
    unfold growDataBlocks
    rw [Code.bind_ok allocated, load_bind, store_bind]
    change store root ((taken.data root).word nblocksWord) 0
      (taken.setWord root nblocksWord (u32 ((taken.data root).word nblocksWord + 1))) = _
    rw [takenRoot, shorter.array.count]
    rfl
  have nblocks : (after.data root).word 1023 = 1 := by
    rw [afterRoot, Image.word_setWord_of_ne (by decide), Image.word_setWord_self (by decide)]
  have converted : Converted after root 1020 := by
    refine ⟨opened.freelist,
      ⟨{ ts with blocks := blocks }, older, state, rfl, zero, read, used, usable⟩, nblocks,
      ?_, ?_, ?_⟩
    · rw [afterRoot, Image.word_setWord_self (by decide)]
    · rw [ptItemSize, afterRoot, Image.setWord_byte_of_ne (by decide),
        Image.setWord_byte_of_ne (by decide)]
      exact shorter.array.itemSize
    · rw [afterRoot, Image.word_setWord_of_ne (by decide),
        Image.word_setWord_of_ne (by decide), shorter.length, List.length_replicate]
  -- one round of the first loop, none of the others
  have first :
      Code.whileLoop (fun db : EdbDb => ptNblocks db root < 1 && ptNblocks db root < levelOne)
      (growDataBlocks (edbApi (depth + 1)) root) 4294967296 db = .ok () after := by
    rw [Code.whileLoop_round (by simp [ptNblocks, count]) grown, Code.whileLoop_skip _]
    simp [ptNblocks, nblocks]
  refine ⟨after, ?_, converted, rfl⟩
  unfold pageResize
  rw [Code.bind_ok modifyRoot, Code.bind_ok first,
    Code.bind_ok (Code.whileLoop_skip (by simp [ptNblocks, nblocks])),
    Code.bind_ok (Code.whileLoop_skip (by simp [ptNblocks, nblocks]))]
  exact Code.whileLoop_skip (by simp [ptNblocks, nblocks])

/-- The push that finds the root full. -/
theorem OpenFreelist.push_full (opened : OpenFreelist db root ts older)
    (stack : Stack (db.data root) words)
    (full : words.length = 1021) (depth : Nat) (buffer : Image) :
    arrayPush (edbApi (depth + 1)) root buffer db = .stuck ∨
    ∃ after, arrayPush (edbApi (depth + 1)) root buffer db = .ok () after ∧
    Converted after root 1021 ∧
      after.ctl.nblocks = db.ctl.nblocks := by
  have array := stack.array
  have capacity : arrayCapacity root db = .ok 1021 db := array.capacity (by decide)
  have length : (db.data root).word lengthWord = 1021 := stack.length.trans full
  -- the elements are moved aside
  let cleared : EdbDb := db.write root ((db.data root).blit 0 Image.zero 0 (1021 * 4))
  have clearedStack : Stack (cleared.data root) (List.replicate 1021 0) := by
    have cleaned := stack.cleared
    rw [full] at cleaned
    rw [show cleared.data root = _ from Db.write_data_self _ _ _]
    exact cleaned
  have clearedOpen : OpenFreelist cleared root ts older :=
    ⟨opened.txn, opened.freelist, opened.nonzero, opened.wf, opened.recorded⟩
  have resizes : arrayResize (edbApi (depth + 1)) root 1022 db =
      (arrayMakePaged (edbApi (depth + 1)) root 1021 1 >>= fun _ =>
        truncateLength root 1024) db := by
    have divideSmall : divide smallBytes 4 db = .ok 1021 db := divide_run (by decide) db
    have divideBlock : divide blockSize 4 db = .ok 1024 db := divide_run (by decide) db
    unfold arrayResize
    rw [Code.bind_ok capacity, if_neg (by decide), Code.gets_bind, ptItemSize, array.itemSize,
      Code.bind_ok divideSmall, load_bind, array.count, if_neg (by decide),
        Code.bind_ok divideBlock]
    have repage : arrayRepage (edbApi (depth + 1)) root 1021 (u32 (1022 + 1024 - 1) / 1024) db =
        arrayMakePaged (edbApi (depth + 1)) root 1021 1 db := by
      unfold arrayRepage
      rw [load_bind, array.count, if_neg (by decide), if_pos rfl]
      rfl
    exact Code.bind_congr repage
  have makes : arrayMakePaged (edbApi (depth + 1)) root 1021 1 db =
      (pageResize (edbApi (depth + 1)) root 1 >>= fun _ =>
        pageWriteHostIndex (edbApi (depth + 1)) root 0 >>=
        fun firstPage => .update fun after => after.write firstPage
          ((after.data firstPage).blit 0 (db.data root) 0 (1021 * ptItemSize after root)))
          cleared := by
    unfold arrayMakePaged
    rw [Code.gets_bind, Code.update_bind, ptItemSize, array.itemSize]
  have pushes : arrayPush (edbApi (depth + 1)) root buffer db =
      (arrayResize (edbApi (depth + 1)) root 1022 >>= fun _ =>
        storeLast (edbApi (depth + 1)) root buffer) db := by
    unfold arrayPush
    rw [load_bind, length, Code.bind_ok capacity, if_pos (by decide)]
    rfl
  rcases clearedOpen.pageResize_cleared clearedStack depth with
    stuck | ⟨paged, resized, converted, same⟩
  · left
    rw [pushes]
    refine Code.bind_stuck ?_
    rw [resizes]
    refine Code.bind_stuck ?_
    rw [makes]
    exact Code.bind_stuck stuck
  right
  -- and copied to block zero
  let copied : EdbDb := paged.write 0 ((paged.data 0).blit 0 (db.data root) 0 (1021 * 4))
  have convertedCopy : Converted copied root 1020 := converted.write (Ne.symm opened.nonzero) _
  have moved : arrayMakePaged (edbApi (depth + 1)) root 1021 1 db = .ok () copied := by
    rw [makes, Code.bind_ok resized, Code.bind_ok (converted.pageWrite depth)]
    change Outcome.ok ()
      (paged.write 0 ((paged.data 0).blit 0 (db.data root) 0 (1021 * ptItemSize paged root))) = _
    rw [converted.itemSize]
  have grown : arrayResize (edbApi (depth + 1)) root 1022 db = .ok () copied := by
    rw [resizes, Code.bind_ok moved]
    unfold truncateLength
    rw [load_bind, convertedCopy.length, if_neg (by decide)]
    rfl
  -- the entry is stored in the page
  obtain ⟨after, stored, longer, blocks⟩ :=
    convertedCopy.storeLast opened.nonzero (by decide) depth buffer
  exact ⟨after, by rw [pushes, Code.bind_ok grown, stored], longer, blocks.trans same⟩

/-! ## What a push does to the list -/

/-- The free blocks of a freelist, together with the blocks that its page table uses. -/
inductive FreeBlocks (db : EdbDb) (root : Nat) : List Nat → Prop
  | inRoot {words : List Nat} (stack : Stack (db.data root) words) : FreeBlocks db root words
  | paged {words pages indexes : List Nat} (table : PageTable db root 509 pages indexes)
      (nonempty : pages ≠ [])
      (itemSize : ptItemSize db root = 4) (length : arrayLength db root = words.length)
      (fits : words.length ≤ pages.length * 1024)
      (entries : ∀ i word page, words[i]? = some word → pages[i / 1024]? = some page →
        (db.data page).word (i % 1024) = word) : FreeBlocks db root (words ++ (pages ++ indexes))

/-- After the push the free blocks are the earlier ones and the pushed block: none is
lost, none twice and none reserved. -/
def Survives (db : EdbDb) (before : List Nat) (block : Nat) (push : Code EdbDb Unit) : Prop :=
  ∃ after blocks, push db = .ok () after ∧ FreeBlocks after after.ctl.freelist blocks ∧
    blocks.Perm (before ++ [block]) ∧ blocks.Nodup ∧ ∀ free ∈ blocks, edbUserData ≤ free

/-- The body of the growth loop of `freelist_allocate_block`. -/
def growthPush (api : BlockApi EdbDb) (i : Nat) : Code EdbDb Unit := do
  let freelist ← .gets fun db => db.ctl.freelist
  arrayPush api freelist (Image.ofWord i)

/-- The freelists there are: in the root, or in pages of which the first is block zero.
A conversion makes no other (`Converted.listed`). -/
inductive Listed (db : EdbDb) (root block : Nat) : List Nat → Prop
  | inRoot {words : List Nat} (stack : Stack (db.data root) words)
      (distinct : (words ++ [block]).Nodup)
      (user : ∀ free ∈ words, edbUserData ≤ free) : Listed db root block words
  | paged {words pages indexes : List Nat} (table : PageTable db root 509 pages indexes)
      (first : pages.head? = some 0) :
      Listed db root block (words ++ (pages ++ indexes))

/-- A freelist that a conversion has made is one of them, and pushes on it leave it so. -/
theorem Converted.listed {length : Nat} {pages indexes : List Nat}
    (converted : Converted db root length)
    (table : PageTable db root 509 pages indexes) (words : List Nat) :
    Listed db root block (words ++ (pages ++ indexes)) :=
  .paged table (converted.first_page table)

/-- A freelist that a conversion has made uses block zero. -/
theorem Converted.zero_mem {length : Nat} {blocks : List Nat} (converted : Converted db root length)
    (free : FreeBlocks db root blocks) : 0 ∈ blocks := by
  cases free with
  | inRoot stack =>
      have count := stack.array.count
      rw [converted.nblocks] at count
      cases count
  | paged table nonempty itemSize length fits entries =>
      obtain ⟨page, pages, rfl⟩ := List.exists_cons_of_ne_nil nonempty
      have first := table.direct 0 page (by decide) rfl
      rw [converted.page] at first
      simp [first]

namespace OpenFreelist

theorem growthPush_run (opened : OpenFreelist db root ts older)
    (api : BlockApi EdbDb) (block : Nat) :
    growthPush api block db = arrayPush api root (Image.ofWord block) db := by
  unfold growthPush
  rw [Code.gets_bind, opened.freelist]

/-- `freelist_free_block` makes the same push. -/
theorem freelistFreeBlock_run (opened : OpenFreelist db root ts older)
    (user : edbUserData ≤ block) (depth : Nat) :
    freelistFreeBlock (edbApi (depth + 1)) block db =
      arrayPush (edbApi (depth + 1)) root (Image.ofWord block) db := by
  have modifyRoot : (edbApi (depth + 1)).modify root db = .ok root db :=
    opened.modify_root (edbApi depth)
  have same : (db.withCtl fun ctl => { ctl with freelist := root }) = db := by
    obtain ⟨data, ctl⟩ := db
    have here : ctl.freelist = root := opened.freelist
    simp [Db.withCtl, ← here]
  unfold freelistFreeBlock
  rw [if_neg (by omega), Code.gets_bind, opened.freelist, Code.bind_ok modifyRoot,
    Code.bind_ok (setCtl_run _ db), same, Code.gets_bind, opened.freelist]

/-- No push survives that finds the root full. -/
theorem lost {before : List Nat} (opened : OpenFreelist db root ts older)
    (stack : Stack (db.data root) before) (full : before.length = 1021) (depth : Nat) :
    ¬Survives db before block (arrayPush (edbApi (depth + 2)) root (Image.ofWord block)) := by
  rintro ⟨after, blocks, pushed, free, _, _, above⟩
  obtain ⟨converted, conversion, paged, _⟩ :=
    (opened.push_full stack full (depth + 1) (Image.ofWord block)).resolve_left (by simp [pushed])
  rw [conversion] at pushed
  obtain ⟨⟩ := pushed
  rw [paged.freelist] at free
  have reserved := above 0 (paged.zero_mem free)
  simp [edbUserData] at reserved

end OpenFreelist

/-- A push survives exactly when the freelist is in its root and has room there. The push
that finds the root full makes block zero the first page, and no later push takes it
out again. -/
theorem freelist_push_iff {before : List Nat} (opened : OpenFreelist db root ts older)
    (listed : Listed db root block before) (user : edbUserData ≤ block)
    (bounded : block < 4294967296) (depth : Nat) (push : Code EdbDb Unit)
    (pushes : push = freelistFreeBlock (edbApi (depth + 2)) block ∨
      push = growthPush (edbApi (depth + 2)) block) :
    Survives db before block push ↔ ptNblocks db root = 0 ∧ arrayLength db root < 1021 := by
  have ran : push db = arrayPush (edbApi (depth + 2)) root (Image.ofWord block) db := by
    rcases pushes with rfl | rfl
    · exact opened.freelistFreeBlock_run user (depth + 1)
    · exact opened.growthPush_run _ block
  unfold Survives
  rw [ran]
  cases listed with
  | inRoot stack distinct usable =>
      have length : arrayLength db root = before.length := stack.length
      constructor
      · rintro ⟨after, blocks, pushed, free, same, unique, above⟩
        refine ⟨stack.array.count, ?_⟩
        by_contra full
        have fits := stack.fits
        exact opened.lost stack (by omega) depth ⟨after, blocks, pushed, free, same, unique, above⟩
      · rintro ⟨_, room⟩
        obtain ⟨image, pushed, longer⟩ := stack.push (edbApi (depth + 2)) (by omega) bounded
        refine ⟨_, before ++ [block], pushed, .inRoot ?_, List.Perm.refl _, distinct, ?_⟩
        · rw [Db.write_ctl, opened.freelist, Db.write_data_self]
          exact longer
        · intro free member
          rcases List.mem_append.mp member with old | new
          · exact usable free old
          · rw [List.mem_singleton.mp new]
            exact user
  | @paged words pages indexes table first =>
      have positive : ptNblocks db root ≠ 0 := by
        have count : ptNblocks db root = pages.length := table.count
        obtain ⟨rest, rfl⟩ := List.head?_eq_some_iff.mp first
        simp [count]
      constructor
      · rintro ⟨after, blocks, _, _, same, _, above⟩
        have zero : 0 ∈ blocks := same.mem_iff.mpr (by simp [List.mem_of_mem_head? first])
        have reserved := above 0 zero
        simp [edbUserData] at reserved
      · exact fun ⟨inRoot, _⟩ => absurd inRoot positive

/-- The freelist of an open transaction. -/
theorem Tracks.openFreelist {base : Books} {l : Ledger} {others : List Nat} {c : Client}
    (tracks : Tracks db base l)
    (sound : l.Sound others base c) : OpenFreelist db 2 ⟨base.nblocks, l.table⟩ [] := by
  refine ⟨tracks.txn, tracks.freelist, by decide, sound.table.wf, ?_⟩
  rw [sound.table.root]
  decide

/-- A freelist of one block, which the transaction took and gave back: the push of
another block survives. -/
theorem freelist_push_longer : ∃ db answers s, edbOpenNew (newFile grantingOs) = .ok () db ∧
    Run 2 (Session.start db []) [.begin, .allocate, .allocate, .free 4] answers s ∧
    Survives s.db [4] 5 (freelistFreeBlock (edbApi 2) 5) := by
  obtain ⟨db, opened, _⟩ := edbOpenNew_run grantingOs_succeeds
  have allowed : (Bank.closed ⟨4, [], []⟩).Allows ⟨[], [], [], []⟩ [.begin, .allocate,
      .allocate, .free 4] := by
    decide +kernel
  have start := newSession_keeps grantingOs_succeeds opened
  obtain ⟨s, run⟩ := start.run 0 allowed
  have kept := (run.keeps start).2.2
  have books : [Op.begin, .allocate, .allocate, .free 4].foldl Bank.next (.closed ⟨4, [], []⟩) =
      .opened ⟨4, [], []⟩ ((Books.begun ⟨4, [], []⟩).allocate.2.allocate.2.freeBlock 4) := rfl
  rw [books] at kept
  refine ⟨db, _, s, opened, run, ?_⟩
  cases kept with
  | opened tracks sound =>
      have free : ((Books.begun ⟨4, [], []⟩).allocate.2.allocate.2.freeBlock 4).free = [4] := by
        decide +kernel
      have stack := tracks.free
      rw [free] at stack
      refine (freelist_push_iff (tracks.openFreelist sound)
        (.inRoot stack (by decide) (by decide)) (by decide)
        (by decide) 0 _ (.inl rfl)).mpr ⟨stack.array.count, ?_⟩
      change (s.db.data 2).word 1022 < 1021
      rw [stack.length]
      decide

/-- In the full file the freelist has 1021 entries once a transaction is open, and a push
of block 1026 does not survive. -/
theorem freelist_push_full : ∃ begun, edbTxnBegin 0 fullFile = .ok () begun ∧
    FreeBlocks begun begun.ctl.freelist (List.range' 4 1021) ∧
    ¬Survives begun (List.range' 4 1021) 1026 (freelistFreeBlock (edbApi 2) 1026) := by
  have sound : Books.Sound [] (Client.mk [1026, 1025] [] [] []).held ⟨1027, List.range' 4 1021,
      []⟩ := fullFile_sound
  obtain ⟨begun, ran, tracks, _⟩ := fullFile_settled.begin_run sound 0
  have opened := tracks.openFreelist sound.begun.2
  have stack : Stack (begun.data 2) (List.range' 4 1021) := tracks.free
  refine ⟨begun, ran, ?_, ?_⟩
  · rw [opened.freelist]
    exact .inRoot stack
  · unfold Survives
    rw [opened.freelistFreeBlock_run (by decide) 1]
    exact opened.lost stack (by rw [List.length_range']) 0

/-! ## A growth that overflows the root -/

/-- The pushes of a growth by more blocks than the root has room for: the root is
converted, unless a push has no result. -/
theorem OpenFreelist.growth_overflows (opened : OpenFreelist db root ts older)
    (stack : Stack (db.data root) [])
    {start : Nat} (exceeds : start + 1021 < db.ctl.nblocks) (fits : db.ctl.nblocks ≤ start + 1024)
    (bounded : db.ctl.nblocks < 4294967296) (depth : Nat) :
    Code.forLoop (fun i (db : EdbDb) => i < db.ctl.nblocks) (growthPush (edbApi (depth + 1)))
      4294967296 start db =
      .stuck ∨
    ∃ after, Code.forLoop (fun i (db : EdbDb) => i < db.ctl.nblocks)
      (growthPush (edbApi (depth + 1))) 4294967296 start
      db = .ok () after ∧ Converted after root (db.ctl.nblocks - start - 1) := by
  rcases Code.forLoop_unless_stuck (fun i (db : EdbDb) => i < db.ctl.nblocks)
    (growthPush (edbApi (depth + 1))) (fun count state => state.ctl.nblocks = db.ctl.nblocks ∧
      if count ≤ start + 1021 then
        OpenFreelist state root ts older ∧
        Stack (state.data root) (List.range' start (count - start))
      else Converted state root (count - start - 1))
    start db.ctl.nblocks 4294967296 db
    (by
      rintro count state above below ⟨blocks, shape⟩
      refine ⟨decide_eq_true (by rw [blocks]; exact below), ?_⟩
      rcases Nat.lt_trichotomy count (start + 1021) with less | rfl | more
      · right
        rw [if_pos (by omega)] at shape
        obtain ⟨still, listed⟩ := shape
        obtain ⟨image, pushed, longer⟩ :=
          listed.push (edbApi (depth + 1)) (by rw [List.length_range']; omega)
          (show count < 4294967296 by omega)
        refine ⟨_, (still.growthPush_run _ count).trans pushed, blocks, ?_⟩
        rw [if_pos (by omega), Db.write_data_self, show count + 1 - start =
          count - start + 1 by omega,
          List.range'_1_concat, show start + (count - start) = count by omega]
        exact ⟨⟨still.txn, still.freelist, still.nonzero, still.wf, still.recorded⟩, longer⟩
      · rw [if_pos (Nat.le_refl _)] at shape
        obtain ⟨still, listed⟩ := shape
        rw [still.growthPush_run]
        rcases still.push_full listed (by rw [List.length_range']; omega) depth
          (Image.ofWord (start + 1021)) with
          stuck | ⟨after, pushed, converted, same⟩
        · exact .inl stuck
        · refine .inr ⟨after, pushed, same.trans blocks, ?_⟩
          -- the entry that became the page is gone
          rw [if_neg (by omega), show start + 1021 + 1 - start - 1 = 1021 by omega]
          exact converted
      · right
        rw [if_neg (by omega)] at shape
        have push : growthPush (edbApi (depth + 1)) count state =
            arrayPush (edbApi (depth + 1)) root (Image.ofWord count) state := by
          unfold growthPush
          rw [Code.gets_bind, shape.freelist]
        obtain ⟨after, pushed, longer, same⟩ :=
          shape.push opened.nonzero (by omega) depth (Image.ofWord count)
        refine ⟨after, push.trans pushed, same.trans blocks, ?_⟩
        rw [if_neg (by omega), show count + 1 - start - 1 = count - start - 1 + 1 by omega]
        exact longer)
    (by
      rintro state ⟨blocks, _⟩
      exact decide_eq_false (by rw [blocks]; exact Nat.lt_irrefl _))
    (by omega) (by omega) ⟨rfl, by
      rw [if_pos (by omega), Nat.sub_self, List.range'_zero]
      exact ⟨opened, stack⟩⟩ with stuck | ⟨after, ran, _, shape⟩
  · exact .inl stuck
  · rw [if_neg (by omega)] at shape
    exact .inr ⟨after, ran, shape⟩

/-- A table entry leaves the bytes and the freelist alone. -/
theorem txnSet_ok {state : Nat} {after : EdbDb} (set : txnSet block state db = .ok () after) :
    after.data = db.data ∧ after.ctl.freelist = db.ctl.freelist := by
  unfold txnSet at set
  split at set
  · cases set
  · rename_i ts older _
    cases entered : memHashSet ts.blocks block state with
    | none =>
        rw [entered] at set
        cases set
    | some blocks =>
        rw [entered] at set
        cases set
        exact ⟨rfl, rfl⟩

/-- In a file of 4096 blocks that are all in use, `edb_allocate_block` takes the freelist
out of its root. -/
theorem Tracks.allocate_overflows {base : Books} {l : Ledger} {others : List Nat}
    {c : Client} {after : EdbDb}
    (tracks : Tracks db base l) (sound : l.Sound others base c) (none : l.free = [])
    (size : l.nblocks = 4096)
    (depth : Nat) (ran : edbAllocateBlock (depth + 2) db = .ok block after) :
    ptNblocks after after.ctl.freelist = 1 := by
  have working := sound.working
  have grown : grownBlocks l.nblocks = 5120 := by
    rw [size]
    decide
  have resized : Tracks (ioResized db 5120) base { l with nblocks := 5120 } :=
    tracks.resized working (by omega) (by decide)
  have blocks : (ioResized db 5120).ctl.nblocks = 5120 := rfl
  have opened : OpenFreelist (ioResized db 5120) 2 ⟨base.nblocks, l.table⟩ [] :=
    ⟨resized.txn, resized.freelist, by decide, sound.table.wf, by
      rw [sound.table.root]
      decide⟩
  have empty : Stack ((ioResized db 5120).data 2) [] := none ▸ resized.free
  have length : arrayLength db 2 = 0 := by
    have length : arrayLength db 2 = l.free.length := tracks.free.length
    rwa [none] at length
  have takes : freelistAllocateBlock (edbApi (depth + 1)) db =
      (Code.forLoop (fun i (db : EdbDb) => i < db.ctl.nblocks) (growthPush (edbApi (depth + 1)))
        4294967296 4097 >>=
        fun _ => pure 4096) (ioResized db 5120) := by
    unfold freelistAllocateBlock
    rw [Code.gets_bind, tracks.freelist,
      Code.bind_ok (tracks.modify_root working.wf working.root depth),
      Code.bind_ok (setCtl_run _ db), tracks.same_freelist, Code.gets_bind, tracks.freelist, length,
      if_neg (by decide), Code.gets_bind, tracks.nblocks, grown,
      Code.bind_ok (ioResize_run (by decide) tracks.serves.succeeds), size]
    rfl
  change txnAllocateBlock (edbApi (depth + 1)) db = _ at ran
  unfold txnAllocateBlock at ran
  rw [Code.bind_ok (requireTxn_run tracks.txn)] at ran
  obtain ⟨taken, middle, first, rest⟩ := Code.of_bind_ok ran
  rw [takes] at first
  have exceeds : 4097 + 1021 < (ioResized db 5120).ctl.nblocks := by
    rw [blocks]
    decide
  rcases opened.growth_overflows empty exceeds (by omega) (by omega) depth with
    stuck | ⟨pushed, looped, converted⟩
  · rw [Code.bind_stuck stuck] at first
    cases first
  · rw [Code.bind_ok looped] at first
    cases first
    obtain ⟨_, marked, set, last⟩ := Code.of_bind_ok rest
    cases last
    obtain ⟨data, freelist⟩ := txnSet_ok set
    unfold ptNblocks
    rw [freelist, data, converted.freelist]
    exact converted.nblocks

end EverDb
