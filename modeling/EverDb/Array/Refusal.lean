import EverDb.Array.Capacity
import EverDb.Array.Refine

/-!
# Arrays and refused requests

When the growth of a paged array is refused, its elements stay where they are. An
array inside its root is moved out of the way before the first block is asked for, and
is not moved back: what can be read after a refusal is what the root or the first data
block holds by then.
-/

namespace EverDb

open Foundation

variable {answer : List BlockEvent → Option Nat} {fresh : FreshAnswers answer} {own : Ownership}
  {db failed : Db (List BlockEvent)} {root size limit capacity count : Nat}
  {blocks indexes : List Nat}
  {elems : List (List UInt8)} {code : Int}

/-- What a failed call must leave of an array. -/
structure DataKept (answer : List BlockEvent → Option Nat) (root : Nat) (elems : List (List UInt8))
    (failed : Db (List BlockEvent)) : Prop where
  length : arrayLength failed root = elems.length
  elements : ∀ i element, elems[i]? = some element →
    arrayGet (recorder answer) root i failed = .ok element failed

/-- A call that fails loses no data. -/
def Harmless (answer : List BlockEvent → Option Nat) (root : Nat) (elems : List (List UInt8))
    (outcome : Outcome (Db (List BlockEvent)) Unit) : Prop :=
  ∀ code failed, outcome = .error code failed → DataKept answer root elems failed

/-- The elements that can be read after the growth of an array inside its root was
refused. -/
def leftover (answer : List BlockEvent → Option Nat) (db : Db (List BlockEvent)) (size i : Nat) :
    List UInt8 :=
  (match answer db.ctl with
    | none => Image.zero
    | some page => db.data page).slice (i * size) size

/-- The number of data blocks that `array_resize` computes. -/
def wantedBlocks (size capacity : Nat) : Nat :=
  if capacity ≤ smallCapacity size then 0
  else u32 (capacity + itemsPerBlock size - 1) / itemsPerBlock size

/-- A growth that reaches its target has stayed within the index entries. -/
theorem growthEnd_reached {more : Nat} : ∀ {count : Nat} {history : List BlockEvent},
    growthEnd answer limit more count history = .reached →
    more = 0 ∨ count + more ≤ 512 + 1024 * limit := by
  induction more with
  | zero => intro count history _; exact .inl rfl
  | succ more ih =>
      intro count history ends
      right
      have below : count < 512 + 1024 * limit := by
        by_contra past
        rw [growthEnd, if_pos (by omega)] at ends
        cases ends
      rw [growthEnd_succ below] at ends
      split at ends
      · cases ends
      · split at ends
        · have := ih ends
          omega
        · split at ends
          · cases ends
          · have := ih ends
            omega

/-- A growth that stays within the index entries does not end past them. -/
theorem growthEnd_not_full {more : Nat} : ∀ {count : Nat} {history : List BlockEvent},
    more = 0 ∨ count + more ≤ 512 + 1024 * limit →
    growthEnd answer limit more count history ≠ .full := by
  induction more with
  | zero => intro count history _; exact nofun
  | succ more ih =>
      intro count history within
      rw [growthEnd_succ (by omega)]
      split
      · exact nofun
      · split
        · exact ih (by omega)
        · split
          · exact nofun
          · exact ih (by omega)

/-- The number of blocks wanted has 32 bits. -/
theorem wantedBlocks_lt (size capacity : Nat) : wantedBlocks size capacity < 4294967296 := by
  unfold wantedBlocks
  split
  · decide
  · exact Nat.lt_of_le_of_lt (Nat.div_le_self _ _) (Nat.mod_lt _ (by decide))

/-- Where the sum does not wrap, as many blocks are wanted as the elements need. -/
theorem wantedBlocks_eq (bounded : capacity + itemsPerBlock size - 1 < 4294967296) :
    wantedBlocks size capacity = blocksFor size capacity := by
  rw [wantedBlocks, blocksFor, u32_of_lt bounded]

/-- A refused growth has not reached its target. -/
theorem Refusal.not_reached {stop : GrowthEnd} {others : List Nat}
    (refusal : Refusal fresh stop db root limit blocks others code failed) : stop ≠ .reached := by
  rcases refusal with ⟨_, ⟨rfl, _⟩ | ⟨rfl, _⟩⟩
  · decide
  · decide

/-- A refused growth has stopped on the way. -/
theorem Refusal.stopped {stop : GrowthEnd} {others : List Nat}
    (refusal : Refusal fresh stop db root limit blocks others code failed) :
    ∃ extra, Stopped fresh db failed root limit blocks others extra := by
  rcases refusal with ⟨_, ⟨_, stopped⟩ | ⟨_, index, stopped⟩⟩
  · exact ⟨_, stopped⟩
  · exact ⟨_, stopped⟩

/-- The blocks that are out beside those of a table. -/
theorem HeldTable.exists_others
    (held : HeldTable (steadyContract fresh) own db root limit blocks indexes)
    (room : 3 * 521728 ≤ own.room + blocks.length + indexes.length) :
    ∃ others, (outstanding db.ctl).Perm (blocks ++ indexes ++ others) ∧
    others.length ≤ 4293402111 := by
  have valid : RecorderValid own db := held.valid
  have inside : blocks ++ indexes ⊆ outstanding db.ctl := fun block member =>
    (valid.live block).mp (held.live block member)
  have fewer := List.subperm_of_subset (List.nodup_cons.mp held.distinct).2 inside
  have account := List.subperm_append_diff_self_of_count_le fun block _ => fewer.count_le block
  refine ⟨_, account.symm, ?_⟩
  have total := valid.room
  have size := account.length_eq
  simp only [List.length_append] at size
  omega

/-- `array_get` of an element in a data block. -/
theorem arrayGet_held {i page : Nat} {element : List UInt8}
    (held : HeldTable (steadyContract fresh) own db root limit blocks indexes)
    (itemSize : ptItemSize db root = size) (positive : 0 < size) (inside : i < arrayLength db root)
    (here : blocks[i / itemsPerBlock size]? = some page)
    (bytes : (db.data page).slice (i % itemsPerBlock size * size) size = element) :
    arrayGet (recorder answer) root i db = .ok element db := by
  have valid : RecorderValid own db := held.valid
  have writable : ∀ block ∈ blocks ++ indexes, own.writable block := fun block member =>
    (valid.writable block).mpr ((valid.live block).mp (held.live block member))
  obtain ⟨within, _⟩ := List.getElem?_eq_some_iff.mp here
  have count : (db.data root).word nblocksWord = blocks.length := held.table.count
  have length : (db.data root).word lengthWord = arrayLength db root := rfl
  have found : orAbort (pageWriteHostIndex (recorder answer) root (i / itemsPerBlock size)) db =
      .ok page db := by
    have ran := pageWriteHostIndex_of_writable held writable here
    unfold orAbort
    rw [show pageWriteHostIndex (recorder answer) root (i / itemsPerBlock size) db =
      .ok page db from ran]
  have place : arrayData (recorder answer) root i db =
      .ok (some (page, i % itemsPerBlock size * size)) db := by
    unfold arrayData
    rw [load_bind, length, if_neg (Nat.not_le_of_lt inside), load_bind, count,
      Code.gets_bind, itemSize, if_neg (Nat.ne_of_gt (Nat.lt_of_le_of_lt (Nat.zero_le _) within)),
      Code.bind_ok (divide_run positive db), Code.bind_ok found, Code.gets_bind, itemSize]
    rfl
  unfold arrayGet
  rw [Code.bind_ok place]
  simp only [Code.gets_run, itemSize, bytes]

/-- The header of an array whose growth was refused. -/
theorem Stopped.header_of {others extra : List Nat} {length : Nat}
    (stopped : Stopped fresh db failed root 509 blocks others extra)
    (header : ArrayHeader db root size length) : ArrayHeader failed root size length :=
  header.of_same fun offset low high => stopped.header offset (by omega) high

/-- A paged array keeps its elements when its growth is refused. -/
theorem PagedArray.kept {others extra : List Nat}
    (array : PagedArray (steadyContract fresh) own db root size blocks indexes elems)
    (stopped : Stopped fresh db failed root 509 blocks others extra) (positive : 0 < size) :
    DataKept answer root elems failed := by
  have header := stopped.header_of array.header
  obtain ⟨own', less, added, indexes', held, _, pages, _⟩ := stopped.table
  refine ⟨header.length, ?_⟩
  intro i element found
  obtain ⟨inside, _⟩ := List.getElem?_eq_some_iff.mp found
  obtain ⟨page, here⟩ := array.exists_block inside
  obtain ⟨within, _⟩ := List.getElem?_eq_some_iff.mp here
  refine arrayGet_held held header.itemSize positive
    (by rw [arrayLength, header.length]; exact inside)
    ((List.getElem?_append_left within).trans here) ?_
  rw [pages page (List.mem_append_left _ (List.mem_of_getElem? here))]
  exact array.elements i element page found here

/-- What can be read of an array whose way out of its root was refused. -/
theorem Stopped.reads_leftover {extra others : List Nat} {cleared : Db (List BlockEvent)} {i : Nat}
    (stopped : Stopped fresh cleared failed root 509 [] others extra)
    (history : cleared.ctl = db.ctl)
    (apart : ∀ page, answer db.ctl = some page → cleared.data page = db.data page)
    (zeroed : ∀ offset, offset < 4084 → cleared.data root offset = 0)
    (header : ArrayHeader cleared root size elems.length) (fits : elems.length ≤ smallCapacity size)
    (positive : 0 < size) (inside : i < elems.length) :
    arrayGet (recorder answer) root i failed = .ok (leftover answer db size i) failed := by
  have headerFailed := stopped.header_of header
  have within : i < arrayLength failed root := by
    rw [arrayLength, headerFailed.length]
    exact inside
  have bound := small_element_bound inside fits
  have bytes := (small_bytes positive).1
  obtain ⟨own', less, added, indexes', held, _, pages, first⟩ := stopped.table
  obtain ⟨head, same⟩ := first rfl
  rw [history] at head
  rw [List.nil_append] at held pages
  unfold leftover
  cases given : answer db.ctl with
  | none =>
      rw [given] at head
      have empty : added = [] := by
        cases added with
        | nil => rfl
        | cons page rest => cases head
      have count : ptNblocks failed root = 0 := by
        rw [ptNblocks, held.table.count, empty]
        rfl
      rw [arrayGet_inline (recorder answer) count headerFailed.itemSize within, same empty]
      congr 1
      exact Image.slice_congr fun step small => zeroed _ (by omega)
  | some page =>
      rw [given] at head
      have perBlock := smallCapacity_le size
      have below : i < itemsPerBlock size :=
        Nat.lt_of_lt_of_le (Nat.lt_of_lt_of_le inside fits) perBlock
      have here : added[i / itemsPerBlock size]? = some page := by
        rw [Nat.div_eq_of_lt below]
        exact head
      refine arrayGet_held held headerFailed.itemSize positive within here ?_
      rw [pages page (List.mem_of_getElem? head), apart page given, Nat.mod_eq_of_lt below]

/-- The cut of the length cannot fail. -/
theorem truncateLength_total (root capacity : Nat) (db : Db (List BlockEvent)) :
    ∃ after, truncateLength root capacity db = .ok () after := by
  unfold truncateLength
  rw [load_bind]
  split
  · exact ⟨_, rfl⟩
  · exact ⟨_, rfl⟩

/-- `array_resize` as a choice between its branches. -/
theorem arrayResize_branches {api : BlockApi (Db (List BlockEvent))} {before : Nat}
    (current : arrayCapacity root db = .ok before db) (itemSize : ptItemSize db root = size)
    (positive : 0 < size) (small : size ≤ 255) :
    arrayResize api root capacity db =
      if capacity = before then .ok () db
      else if capacity ≤ smallCapacity size then
        ((if ptNblocks db root ≠ 0 then arrayMakeSmall api root (smallCapacity size)
          else pure ()) >>=
          fun _ => truncateLength root (smallCapacity size)) db
      else
        (arrayRepage api root (smallCapacity size) (wantedBlocks size capacity) >>= fun _ =>
          truncateLength root (u32 (wantedBlocks size capacity * itemsPerBlock size))) db := by
  unfold arrayResize
  rw [Code.bind_ok current]
  by_cases same : capacity = before
  · rw [if_pos same, if_pos same]
    rfl
  · rw [if_neg same, if_neg same, Code.gets_bind, itemSize,
      Code.bind_ok (divide_run positive db), load_bind]
    have counted : (db.data root).word nblocksWord = ptNblocks db root := rfl
    rw [counted]
    by_cases little : capacity ≤ smallCapacity size
    · rw [if_pos little, if_pos little]
      by_cases inUse : ptNblocks db root ≠ 0
      · rw [if_pos inUse, if_pos inUse]
      · rw [if_neg inUse, if_neg inUse]
        rfl
    · have perBlock := itemsPerBlock_bounds positive small
      have divided : divide blockSize size db = .ok (itemsPerBlock size) db :=
        divide_run positive db
      rw [if_neg little, if_neg little, Code.bind_ok divided, wantedBlocks, if_neg little]

/-- An array inside its root whose resize is refused keeps its elements only if they
are what is left. -/
theorem SmallArray.resize_answered
    (array : SmallArray (steadyContract fresh) own db root size elems)
    (room : 3 * 521728 ≤ own.room) (positive : 0 < size) (small : size ≤ 255)
    (notFull : growthEnd answer 509 (wantedBlocks size capacity) 0 db.ctl ≠ .full) :
    (∃ after, arrayResize (recorder answer) root capacity db = .ok () after ∧
      growthEnd answer 509 (wantedBlocks size capacity) 0 db.ctl = .reached) ∨
    ∃ code failed, arrayResize (recorder answer) root capacity db = .error code failed ∧
      growthEnd answer 509 (wantedBlocks size capacity) 0 db.ctl ≠ .reached ∧
      (DataKept answer root elems failed ↔
        ∀ i element, elems[i]? = some element → element = leftover answer db size i) := by
  have itemSize : ptItemSize db root = size := array.header.itemSize
  have count : ptNblocks db root = 0 := array.count
  rw [arrayResize_branches (array.capacity positive) itemSize positive small]
  by_cases little : capacity ≤ smallCapacity size
  · left
    rw [wantedBlocks, if_pos little, if_pos little, count]
    obtain ⟨after, cut⟩ := truncateLength_total root (smallCapacity size) db
    by_cases same : capacity = smallCapacity size
    · exact ⟨db, if_pos same, rfl⟩
    · refine ⟨after, ?_, rfl⟩
      rw [if_neg same]
      exact cut
  · rw [if_neg (by omega), if_neg little]
    by_cases none : wantedBlocks size capacity = 0
    · left
      rw [none]
      obtain ⟨after, cut⟩ := truncateLength_total root (u32 (0 * itemsPerBlock size)) db
      refine ⟨after, ?_, rfl⟩
      have repaged : arrayRepage (recorder answer) root (smallCapacity size) 0 db = .ok () db := by
        unfold arrayRepage
        rw [load_bind, array.count, if_pos rfl]
        rfl
      rw [Code.bind_ok repaged]
      exact cut
    · obtain ⟨empty, header, zeroed⟩ := array.clear positive
      set cleared := clearElements root size db with clearedDef
      obtain ⟨others, account, few⟩ := empty.exists_others (by simpa using room)
      have repaged :
          arrayRepage (recorder answer) root (smallCapacity size) (wantedBlocks size capacity) db =
          (pageResize (recorder answer) root (wantedBlocks size capacity) >>= fun _ =>
            pageWriteHostIndex (recorder answer) root 0 >>= fun firstPage =>
              Code.update fun after =>
                after.write firstPage ((after.data firstPage).blit 0 (db.data root) 0
                (smallCapacity size * ptItemSize after root))) cleared := by
        unfold arrayRepage
        rw [load_bind, array.count, if_neg (Ne.symm none), if_pos rfl]
        unfold arrayMakePaged
        rw [Code.gets_bind, Code.update_bind, itemSize, ← clearElements, ← clearedDef]
      rcases pageResize_answered empty account few (Nat.zero_le _)
        (wantedBlocks_lt size capacity) rfl
        notFull with ⟨grown, ran, reached, later, blocks, indexes, growth⟩ |
          ⟨code, failed, ran, refusal⟩
      · left
        have length := growth.length
        obtain ⟨first, found⟩ : ∃ first, blocks[0]? = some first :=
          ⟨_, List.getElem?_eq_getElem (by omega)⟩
        have valid : RecorderValid later grown := growth.held.valid
        have steadily :
            pageWriteHostIndex (recorder (steady answer)) root 0 grown = .ok first grown :=
          pageWriteHostIndex_of_writable growth.held (fun block member =>
            (valid.writable block).mpr ((valid.live block).mp (growth.held.live block member)))
            found
        have located : pageWriteHostIndex (recorder answer) root 0 grown = .ok first grown :=
          steadily
        obtain ⟨after, cut⟩ := truncateLength_total root
          (u32 (wantedBlocks size capacity * itemsPerBlock size))
          (grown.write first ((grown.data first).blit 0 (db.data root) 0
            (smallCapacity size * ptItemSize grown root)))
        refine ⟨after, ?_, reached⟩
        have moved : arrayRepage (recorder answer) root (smallCapacity size)
            (wantedBlocks size capacity) db =
            .ok () (grown.write first ((grown.data first).blit 0 (db.data root) 0
              (smallCapacity size * ptItemSize grown root))) := by
          rw [repaged, Code.bind_ok ran, Code.bind_ok located, Code.update_run]
        rw [Code.bind_ok moved]
        exact cut
      · right
        have failing : arrayRepage (recorder answer) root (smallCapacity size)
            (wantedBlocks size capacity) db =
            .error code failed := by
          rw [repaged, Code.bind_error ran]
        refine ⟨code, failed, Code.bind_error failing, ?_, ?_⟩
        · exact refusal.not_reached
        · obtain ⟨extra, stopped⟩ := refusal.stopped
          have valid : RecorderValid own db := array.valid
          have apart : ∀ page, answer db.ctl = some page → cleared.data page = db.data page := by
            intro page given
            refine Db.write_data_of_ne ?_
            rintro rfl
            exact (fresh _ _ given).1 ((valid.writable page).mp array.writable)
          have reads : ∀ i element, elems[i]? = some element →
              arrayGet (recorder answer) root i failed =
                .ok (leftover answer db size i) failed := by
            intro i element found
            obtain ⟨inside, _⟩ := List.getElem?_eq_some_iff.mp found
            exact stopped.reads_leftover rfl apart zeroed header array.fits positive inside
          constructor
          · intro kept i element found
            have read := kept.elements i element found
            rw [reads i element found] at read
            cases read
            rfl
          · intro same
            refine ⟨(stopped.header_of header).length, fun i element found => ?_⟩
            rw [reads i element found, ← same i element found]

/-- A paged array whose resize is refused keeps its elements. -/
theorem PagedArray.resize_answered
    (array : PagedArray (steadyContract fresh) own db root size blocks indexes elems)
    (within : blocks.length ≤ 521728)
    (room : 3 * 521728 ≤ own.room + blocks.length + indexes.length)
    (positive : 0 < size) (small : size ≤ 255)
    (notFull : growthEnd answer 509 (wantedBlocks size capacity - blocks.length)
      blocks.length db.ctl ≠ .full) :
    (∃ after, arrayResize (recorder answer) root capacity db = .ok () after ∧
      (capacity ≠ blocks.length * itemsPerBlock size → wantedBlocks size capacity ≤ 521728)) ∨
    ∃ code failed, arrayResize (recorder answer) root capacity db = .error code failed ∧
      DataKept answer root elems failed := by
  have itemSize : ptItemSize db root = size := array.header.itemSize
  have count : (db.data root).word nblocksWord = blocks.length := array.held.table.count
  have nonempty : blocks.length ≠ 0 :=
    fun none => array.nonempty (List.eq_nil_of_length_eq_zero none)
  have spans := array.held.table.spans
  rw [indexCount] at spans
  rw [arrayResize_branches (array.capacity positive) itemSize positive small]
  by_cases same : capacity = blocks.length * itemsPerBlock size
  · exact .inl ⟨db, if_pos same, fun different => absurd same different⟩
  · rw [if_neg same]
    by_cases little : capacity ≤ smallCapacity size
    · left
      obtain ⟨later, moved, ran, _⟩ := arrayMakeSmall_spec array positive small (by omega)
      obtain ⟨after, cut⟩ := truncateLength_total root (smallCapacity size) moved
      have again :
          arrayMakeSmall (recorder answer) root (smallCapacity size) db = .ok () moved := by
        obtain ⟨first, found⟩ : ∃ first, blocks[0]? = some first :=
          ⟨_, List.getElem?_eq_getElem (Nat.pos_of_ne_zero nonempty)⟩
        have located : pageWriteHostIndex (recorder (steady answer)) root 0 db = .ok first db :=
          pageWriteHostIndex_of_writable array.held array.writable found
        have same : pageWriteHostIndex (recorder answer) root 0 db = .ok first db := located
        unfold arrayMakeSmall at ran ⊢
        rw [Code.bind_ok located, Code.gets_bind] at ran
        rw [Code.bind_ok same, Code.gets_bind]
        obtain ⟨emptied, emptiedState, shrunk, rest⟩ := Code.of_bind_ok ran
        rw [Code.bind_ok ((pageResize_shrink_answered (Nat.zero_le _)).trans shrunk)]
        exact rest
      refine ⟨after, ?_, fun _ => by rw [wantedBlocks, if_pos little]; exact Nat.zero_le _⟩
      rw [if_pos little,
        if_pos (show ptNblocks db root ≠ 0 by rw [ptNblocks, count]; exact nonempty),
        Code.bind_ok again]
      exact cut
    · rw [if_neg little]
      have cuts : ∀ state : Db (List BlockEvent), ∃ after, truncateLength root
          (u32 (wantedBlocks size capacity * itemsPerBlock size)) state = .ok () after :=
        fun state => truncateLength_total root _ state
      by_cases unchanged : blocks.length = wantedBlocks size capacity
      · left
        obtain ⟨after, cut⟩ := cuts db
        have repaged : arrayRepage (recorder answer) root (smallCapacity size)
            (wantedBlocks size capacity) db =
            .ok () db := by
          unfold arrayRepage
          rw [load_bind, count, if_pos unchanged]
          rfl
        refine ⟨after, ?_, fun _ => by omega⟩
        rw [Code.bind_ok repaged]
        exact cut
      · have repaged : arrayRepage (recorder answer) root (smallCapacity size)
            (wantedBlocks size capacity) db =
            pageResize (recorder answer) root (wantedBlocks size capacity) db := by
          unfold arrayRepage
          rw [load_bind, count, if_neg unchanged, if_neg nonempty]
        by_cases fewer : wantedBlocks size capacity ≤ blocks.length
        · left
          obtain ⟨later, moved, _, _, ran, _⟩ :=
            pageResize_of_writable (wantedBlocks size capacity) array.held array.writable
              (by omega) (by omega)
          obtain ⟨after, cut⟩ := cuts moved
          have below : wantedBlocks size capacity ≤ ptNblocks db root := by
            rw [ptNblocks, count]
            exact fewer
          refine ⟨after, ?_, fun _ => by omega⟩
          rw [Code.bind_ok (repaged.trans ((pageResize_shrink_answered below).trans ran))]
          exact cut
        · obtain ⟨others, account, few⟩ := array.held.exists_others room
          rcases pageResize_answered array.held account few (by omega)
            (wantedBlocks_lt size capacity) rfl
            notFull with ⟨grown, ran, reached, _⟩ | ⟨code, failed, ran, refusal⟩
          · left
            obtain ⟨after, cut⟩ := cuts grown
            refine ⟨after, ?_, fun _ => ?_⟩
            · rw [Code.bind_ok (repaged.trans ran)]
              exact cut
            · have := growthEnd_reached reached
              omega
          · right
            obtain ⟨extra, stopped⟩ := refusal.stopped
            exact ⟨code, failed, Code.bind_error (repaged.trans ran), array.kept stopped positive⟩

/-- How the request for a capacity ends. -/
def resizeEnd (answer : List BlockEvent → Option Nat) (db : Db (List BlockEvent))
    (root size capacity : Nat) :
    GrowthEnd :=
  growthEnd answer 509 (wantedBlocks size capacity - ptNblocks db root) (ptNblocks db root) db.ctl

/-- A request for as many data blocks as a root can hold stays within the index entries. -/
theorem resizeEnd_not_full (few : wantedBlocks size capacity ≤ 521728) :
    resizeEnd answer db root size capacity ≠ .full :=
  growthEnd_not_full (by omega)

/-- When a request for a capacity cannot lose data. -/
def Unharmed (answer : List BlockEvent → Option Nat) (db : Db (List BlockEvent)) (root size : Nat)
    (elems : List (List UInt8)) (capacity : Nat) : Prop :=
  ptNblocks db root ≠ 0 ∨ resizeEnd answer db root size capacity = .reached ∨
    ∀ i element, elems[i]? = some element → element = leftover answer db size i

/-- `array_resize` keeps the data at every failure exactly when the array is paged,
the request is granted, or the elements are those that are left. -/
theorem arrayResize_unharmed (array : ArrayRep (steadyContract fresh) 521728 own db root size elems)
    (positive : 0 < size) (small : size ≤ 255)
    (notFull : resizeEnd answer db root size capacity ≠ .full) :
    Harmless answer root elems (arrayResize (recorder answer) root capacity db) ↔
      Unharmed answer db root size elems capacity := by
  cases array with
  | small array room =>
      have count : ptNblocks db root = 0 := array.count
      have ends : resizeEnd answer db root size capacity =
          growthEnd answer 509 (wantedBlocks size capacity) 0 db.ctl := by
        rw [resizeEnd, count, Nat.sub_zero]
      rw [Unharmed, ends, count]
      rw [ends] at notFull
      rcases array.resize_answered room positive small notFull with
        ⟨after, ran, reached⟩ | ⟨code, failed, ran, unreached, kept⟩
      · rw [ran, reached]
        exact iff_of_true (fun code failed same => by cases same) (.inr (.inl rfl))
      · rw [ran]
        constructor
        · intro keeps
          exact .inr (.inr (kept.mp (keeps code failed rfl)))
        · rintro (paged | reached | same) _ _ ⟨⟩
          · exact absurd rfl paged
          · exact absurd reached unreached
          · exact kept.mpr same
  | paged blocks indexes array within room =>
      have count : ptNblocks db root = blocks.length := array.held.table.count
      rw [resizeEnd, count] at notFull
      have nonempty : blocks.length ≠ 0 :=
        fun none => array.nonempty (List.eq_nil_of_length_eq_zero none)
      refine ⟨fun _ => .inl (by rw [count]; exact nonempty), fun _ code failed ran => ?_⟩
      rcases array.resize_answered within room positive small notFull with
        ⟨after, granted, _⟩ | ⟨_, _, refused, kept⟩
      · rw [granted] at ran
        cases ran
      · rw [refused] at ran
        cases ran
        exact kept

/-- A resize that succeeds beyond the current capacity has not wrapped. -/
theorem arrayResize_granted (array : ArrayRep (steadyContract fresh) 521728 own db root size elems)
    (positive : 0 < size) (small : size ≤ 255)
    (notFull : resizeEnd answer db root size capacity ≠ .full)
    {before : Nat} (current : arrayCapacity root db = .ok before db) (larger : before < capacity)
    {after : Db (List BlockEvent)}
    (ran : arrayResize (recorder answer) root capacity db = .ok () after) :
    wantedBlocks size capacity ≤ 521728 := by
  cases array with
  | small array room =>
      have count : ptNblocks db root = 0 := array.count
      rw [resizeEnd, count, Nat.sub_zero] at notFull
      rcases array.resize_answered room positive small notFull with
        ⟨_, _, reached⟩ | ⟨_, _, refused, _⟩
      · have := growthEnd_reached reached
        omega
      · rw [refused] at ran
        cases ran
  | paged blocks indexes array within room =>
      have count : ptNblocks db root = blocks.length := array.held.table.count
      rw [array.capacity positive] at current
      cases current
      rw [resizeEnd, count] at notFull
      rcases array.resize_answered within room positive small notFull with
        ⟨_, _, bounded⟩ | ⟨_, _, refused, _⟩
      · exact bounded (by omega)
      · rw [refused] at ran
        cases ran

/-! ## The capacity that is reached -/

/-- A capacity that needs more blocks than a root can hold is larger than the present one. -/
theorem ArrayRep.capacity_lt (array : ArrayRep (steadyContract fresh) 521728 own db root size elems)
    (positive : 0 < size) (small : size ≤ 255) (many : 521728 < blocksFor size capacity) :
    ∃ before, arrayCapacity root db = .ok before db ∧ before < capacity := by
  have perBlock := itemsPerBlock_bounds positive small
  have little := smallCapacity_le size
  have more : 521728 * itemsPerBlock size < capacity := by
    rw [blocksFor] at many
    split at many
    · omega
    · have reaches := (Nat.le_div_iff_mul_le (by omega)).mp (Nat.succ_le_of_lt many)
      rw [Nat.succ_mul] at reaches
      omega
  cases array with
  | small array room => exact ⟨_, array.capacity positive, by omega⟩
  | paged blocks indexes array within room =>
      exact ⟨_, array.capacity positive, Nat.lt_of_le_of_lt (Nat.mul_le_mul_right _ within) more⟩

/-- `array_resize` honours a capacity exactly when the block count does not wrap. Growth past the
last index entry of the root is left out: no request for at most 521,728 data blocks gets there,
and none whose block count wraps. -/
theorem arrayResize_honours_iff
    (array : ArrayRep (steadyContract fresh) 521728 own db root size elems)
    (positive : 0 < size) (small : size ≤ 255) (bounded : capacity < 4294967296) :
    (resizeEnd answer db root size capacity ≠ .full →
      (Honours answer root capacity elems (arrayResize (recorder answer) root capacity db) ↔
        capacity + itemsPerBlock size - 1 < 4294967296)) ∧
    (blocksFor size capacity ≤ 521728 ∨ 4294967296 ≤ capacity + itemsPerBlock size - 1 →
      resizeEnd answer db root size capacity ≠ .full) := by
  refine ⟨fun notFull => ⟨fun honours => ?_, fun fits after ran => ?_⟩, fun either =>
    resizeEnd_not_full ?_⟩
  · exact Nat.lt_of_not_le fun wraps =>
      arrayResize_dishonours array positive small bounded wraps honours
  · refine arrayResize_honours array positive small (Nat.le_of_not_lt fun many => ?_) ran
    obtain ⟨before, current, larger⟩ := array.capacity_lt positive small many
    have granted := arrayResize_granted array positive small notFull current larger ran
    rw [wantedBlocks_eq fits] at granted
    exact Nat.not_lt_of_le granted many
  · rcases either with few | wraps
    · have fits : capacity + itemsPerBlock size - 1 < 4294967296 := by
        have perBlock := itemsPerBlock_bounds positive small
        have little := smallCapacity_le size
        rw [blocksFor] at few
        split at few
        · omega
        · have below := (Nat.div_lt_iff_lt_mul (by omega)).mp (Nat.lt_succ_of_le few)
          have most : (521728 + 1) * itemsPerBlock size ≤ (521728 + 1) * 4096 :=
            Nat.mul_le_mul_left _ perBlock.2
          omega
      rwa [wantedBlocks_eq fits]
    · rw [wantedBlocks]
      split
      · exact Nat.zero_le _
      · rw [wrapped_count positive small bounded wraps]
        exact Nat.zero_le _

/-- Resizing to 2000 elements with two blocks to be had, and a request for 521,729 blocks that is
refused at once. -/
theorem arrayResize_honours_iff_threeElements :
    (∃ after, arrayResize (recorder (supply 3)) 4 2000 threeElements = .ok () after ∧
        Honours (supply 3) 4 2000 [[7, 0, 0, 0], [8, 0, 0, 0], [9, 0, 0, 0]]
          (arrayResize (recorder (supply 3)) 4 2000 threeElements)) ∧
      blocksFor 4 534250496 = 521729 ∧
      Honours refuseAll 4 534250496 [[7, 0, 0, 0], [8, 0, 0, 0], [9, 0, 0, 0]]
        (arrayResize (recorder refuseAll) 4 534250496 threeElements) := by
  have runs :
      (arrayResize (recorder (supply 3)) 4 2000 threeElements).passes (fun _ _ => true) = true := by
    decide +kernel
  obtain ⟨_, after, ran, _⟩ := Outcome.of_passes runs
  have granted :=
    arrayResize_honours_iff (threeElements_array (supply_fresh (show 3 ≤ 4294967291 by decide)))
    (by decide) (by decide) (show 2000 < 4294967296 by decide)
  have refused :=
    arrayResize_honours_iff (threeElements_array refuseAll_fresh) (by decide) (by decide)
    (show 534250496 < 4294967296 by decide)
  exact ⟨⟨after, ran, (granted.1 (granted.2 (.inl (by decide)))).mpr (by decide)⟩, by decide,
    (refused.1 (by decide +kernel)).mpr (by decide)⟩

/-- `array_push` fails exactly when it needs a larger capacity and is refused. -/
theorem arrayPush_fails (array : ArrayRep (steadyContract fresh) 521728 own db root size elems)
    (positive : 0 < size) (small : size ≤ 255)
    (notFull : resizeEnd answer db root size (elems.length + 1) ≠ .full) {before : Nat}
    (current : arrayCapacity root db = .ok before db) (buffer : Image) :
    arrayPush (recorder answer) root buffer db = .error code failed ↔
      before < elems.length + 1 ∧
        arrayResize (recorder answer) root (elems.length + 1) db = .error code failed := by
  have perBlock := itemsPerBlock_bounds positive small
  have bounded := array.length_le
  have next : u32 (elems.length + 1) = elems.length + 1 := u32_of_lt (by omega)
  unfold arrayPush
  rw [load_bind, array.header.length, Code.bind_ok current, next]
  by_cases full : elems.length + 1 > before
  · rw [if_pos full]
    cases ran : arrayResize (recorder answer) root (elems.length + 1) db with
    | error code' failed' =>
        rw [Code.bind_error ran]
        exact ⟨fun same => ⟨full, same⟩, fun both => both.2⟩
    | stuck =>
        rw [Code.bind_stuck ran]
        exact ⟨fun same => (by cases same), fun both => (by cases both.2)⟩
    | ok value after =>
        have wanted := arrayResize_granted array positive small notFull current full ran
        rw [wantedBlocks_eq (by omega)] at wanted
        obtain ⟨later, resized, granted, larger, reached⟩ :=
          arrayResize_spec array positive small (Nat.le_refl _) wanted
        rw [arrayResize_steady root _ db value after ran] at granted
        cases granted
        have enough := le_newCapacity positive small (elems.length + 1)
        rw [List.take_of_length_le (by omega)] at larger
        obtain ⟨_, stored, _⟩ := arrayPush_store larger positive small reached (by omega) buffer
        rw [Code.bind_ok ran]
        constructor
        · intro same
          exact absurd (stored.symm.trans same) (by simp)
        · rintro ⟨_, ⟨⟩⟩
  · rw [if_neg full]
    obtain ⟨_, stored, _⟩ := arrayPush_store array positive small current (by omega) buffer
    constructor
    · intro same
      exact absurd (stored.symm.trans same) (by simp)
    · rintro ⟨more, _⟩
      exact absurd more full

/-- `array_push` keeps the data at every failure exactly when the resize that it may
need does. -/
theorem arrayPush_unharmed (array : ArrayRep (steadyContract fresh) 521728 own db root size elems)
    (positive : 0 < size) (small : size ≤ 255)
    (notFull : resizeEnd answer db root size (elems.length + 1) ≠ .full) (buffer : Image) :
    Harmless answer root elems (arrayPush (recorder answer) root buffer db) ↔
      Unharmed answer db root size elems (elems.length + 1) := by
  obtain ⟨before, current, fits⟩ : ∃ before, arrayCapacity root db = .ok before db ∧
      (elems.length + 1 ≤ before → Unharmed answer db root size elems (elems.length + 1)) := by
    cases array with
    | small array room =>
        refine ⟨_, array.capacity positive, fun little => .inr (.inl ?_)⟩
        rw [resizeEnd, wantedBlocks, if_pos little, Nat.zero_sub]
        rfl
    | paged blocks indexes array within room =>
        refine ⟨_, array.capacity positive, fun _ => .inl ?_⟩
        rw [ptNblocks, array.held.table.count]
        exact fun none => array.nonempty (List.eq_nil_of_length_eq_zero none)
  have resized := arrayResize_unharmed array positive small notFull
  constructor
  · intro kept
    by_cases full : before < elems.length + 1
    · exact resized.mp fun code failed ran =>
        kept code failed
          ((arrayPush_fails array positive small notFull current buffer).mpr ⟨full, ran⟩)
    · exact fits (by omega)
  · intro unharmed code failed ran
    exact resized.mpr unharmed code failed
      ((arrayPush_fails array positive small notFull current buffer).mp ran).2

/-- A failed `array_resize` or `array_push` loses no data exactly when the array is
paged, all requests are granted, or what is left of the root or of the first granted
block reads as the elements. Growth past the last index entry is left out. -/
theorem arrayGrowth_unharmed_iff
    (array : ArrayRep (steadyContract fresh) 521728 own db root size elems)
    (positive : 0 < size) (small : size ≤ 255) :
    (∀ capacity, resizeEnd answer db root size capacity ≠ .full →
      (Harmless answer root elems (arrayResize (recorder answer) root capacity db) ↔
        Unharmed answer db root size elems capacity)) ∧
    (∀ buffer, resizeEnd answer db root size (elems.length + 1) ≠ .full →
      (Harmless answer root elems (arrayPush (recorder answer) root buffer db) ↔
        Unharmed answer db root size elems (elems.length + 1))) :=
  ⟨fun _ notFull => arrayResize_unharmed array positive small notFull,
    fun buffer notFull => arrayPush_unharmed array positive small notFull buffer⟩

/-- An array that was resized to two pages keeps its elements when the third page is refused. -/
theorem arrayGrowth_unharmed_iff_paged : ∃ paged code failed,
    arrayResize (recorder (supply 3)) 4 2000 threeElements = .ok () paged ∧ ptNblocks paged 4 = 2 ∧
      arrayResize (recorder (supply 3)) 4 3000 paged = .error code failed ∧
      Harmless (supply 3) 4 [[7, 0, 0, 0], [8, 0, 0, 0], [9, 0, 0, 0]]
        (arrayResize (recorder (supply 3)) 4 3000 paged) := by
  have runs : (arrayResize (recorder (supply 3)) 4 2000 threeElements).passes (fun _ paged =>
      decide (ptNblocks paged 4 = 2 ∧ resizeEnd (supply 3) paged 4 4 3000 = .refused ∧
        (arrayResize (recorder (supply 3)) 4 3000 paged).fails = true)) = true := by
    decide +kernel
  obtain ⟨_, paged, grew, checked⟩ := Outcome.of_passes runs
  obtain ⟨two, refused, fails⟩ := of_decide_eq_true checked
  obtain ⟨code, failed, ran⟩ := Outcome.of_fails fails
  have fresh : FreshAnswers (supply 3) := supply_fresh (by decide)
  obtain ⟨later, final, granted, resized, _⟩ :=
    arrayResize_spec (threeElements_array fresh) (by decide) (by decide) (Nat.le_refl _)
      (show blocksFor 4 2000 ≤ 521728 by decide)
  rw [arrayResize_steady 4 2000 threeElements () paged grew] at granted
  cases granted
  have notFull : resizeEnd (supply 3) paged 4 4 3000 ≠ .full := by
    rw [refused]
    decide
  have harmless := ((arrayGrowth_unharmed_iff resized (by decide) (by decide)).1 3000 notFull).mpr
    (.inl (by rw [two]; decide))
  exact ⟨paged, code, failed, grew, two, ran, harmless⟩

/-- When the first request is refused, resizing to 2000 elements leaves a zero in place
of the element. -/
theorem arrayResize_loses_element :
    ¬Harmless refuseAll 4 [[7, 0, 0, 0]] (arrayResize (recorder refuseAll) 4 2000 soleElement) := by
  have array := soleElement_array refuseAll_fresh
  have lost : ¬∀ i element, ([[7, 0, 0, 0]] : List (List UInt8))[i]? = some element →
      element = leftover refuseAll soleElement 4 i := fun same =>
    absurd (same 0 _ rfl) (by decide)
  cases array with
  | paged blocks indexes array within room =>
      have count := array.held.table.count
      exact absurd (List.eq_nil_of_length_eq_zero (count.symm.trans (by decide))) array.nonempty
  | small array room =>
      have notFull : growthEnd refuseAll 509 (wantedBlocks 4 2000) 0 soleElement.ctl ≠ .full := by
        decide
      rcases array.resize_answered room (by decide) (by decide) notFull with
        ⟨_, _, reached⟩ | ⟨code, failed, ran, _, kept⟩
      · cases reached
      · exact fun harmless => lost (kept.mp (harmless code failed ran))

end EverDb
