import EverDb.Page.Sequence

/-!
# Page tables and refused requests

Where the growth of a page table ends is read off the answers of the allocator. A
refused data block leaves the table whole. But the number of a fresh index block is
stored before the first data block behind it is asked for, and `nblocks` does not
count it yet: when that request is refused, no later resize gives it back.
-/

namespace EverDb

open Foundation

/-- How the growth of a page table ends. -/
inductive GrowthEnd where
  /-- At its target. -/
  | reached
  /-- At a refused request for an index block, or for a data block behind one that is
  in use. -/
  | refused
  /-- At a refused request for the first data block behind a fresh index block. -/
  | afterIndex
  /-- Past the last index entry. -/
  | full
  deriving DecidableEq

/-- The end of a growth by `more` data blocks, from the answers alone. -/
def growthEnd (answer : List BlockEvent → Option Nat) (limit : Nat) :
    Nat → Nat → List BlockEvent → GrowthEnd
  | 0, _, _ => .reached
  | more + 1, count, history =>
      if 512 + 1024 * limit ≤ count then .full
      else
        match answer history with
        | none => .refused
        | some block =>
            if count < 512 ∨ (count - 512) % 1024 ≠ 0 then
              growthEnd answer limit more (count + 1) (.taken block :: history)
            else
              match answer (.taken block :: history) with
              | none => .afterIndex
              | some new =>
                  growthEnd answer limit more (count + 1) (.taken new :: .taken block :: history)

variable {answer : List BlockEvent → Option Nat} {fresh : FreshAnswers answer}
  {own later : Ownership}
  {db state failed : Db (List BlockEvent)} {root limit target count more : Nat}
  {blocks indexes blocks' indexes' others extra : List Nat}

/-- A page table whose growth was refused. The blocks `extra` are out, but no part of
the table. Data blocks have the bytes they had, and the first one of an empty table is
the one first answered; with none at all the root is as it was. -/
structure Stopped (fresh : FreshAnswers answer) (db failed : Db (List BlockEvent))
    (root limit : Nat) (blocks others extra : List Nat) : Prop where
  table : ∃ own less added indexes,
    HeldTable (steadyContract fresh) own failed root less (blocks ++ added) indexes ∧
      (outstanding failed.ctl).Perm (extra ++ (blocks ++ added ++ indexes ++ others)) ∧
      (∀ page ∈ blocks ++ added, failed.data page = db.data page) ∧
      (blocks = [] → added[0]? = answer db.ctl ∧ (added = [] → failed.data root = db.data root))
  header : ∀ offset, 4 * (512 + limit) ≤ offset → offset < 4092 →
    failed.data root offset = db.data root offset

/-- The refusals that end a growth. -/
def Refusal (fresh : FreshAnswers answer) (stop : GrowthEnd) (db : Db (List BlockEvent))
    (root limit : Nat) (blocks others : List Nat) (code : Int)
    (failed : Db (List BlockEvent)) : Prop :=
  code = -1 ∧
    ((stop = .refused ∧ Stopped fresh db failed root limit blocks others []) ∨
      (stop = .afterIndex ∧ ∃ index, Stopped fresh db failed root limit blocks others [index]))

/-- A table that has grown to `count` data blocks on its way to `target`, where its
growth will end as `stop`. Only the root and the index blocks have been written. -/
structure Underway (fresh : FreshAnswers answer) (own : Ownership) (db : Db (List BlockEvent))
    (root limit : Nat) (blocks indexes : List Nat) (target : Nat) (stop : GrowthEnd) (count : Nat)
    (state : Db (List BlockEvent)) : Prop where
  grown : GrownTo (steadyContract fresh) own db root limit blocks indexes count state
  ahead : growthEnd answer limit (target - count) count state.ctl = stop
  untouched : ∀ other, other ≠ root →
    (∀ j, j < indexCount count → (state.data root).word (512 + j) ≠ other) →
    state.data other = db.data other
  head : blocks = [] → 0 < count → answer db.ctl = some ((state.data root).word 0)
  start : count = blocks.length → state = db

/-- What a round of growth leaves alone. -/
structure RoundFrame (answer : List BlockEvent → Option Nat) (root count : Nat)
    (state after : Db (List BlockEvent)) : Prop where
  others : ∀ other, other ≠ root →
    (∀ j, j < indexCount (count + 1) → (after.data root).word (512 + j) ≠ other) →
    after.data other = state.data other
  words : ∀ j, j < indexCount count →
    (after.data root).word (512 + j) = (state.data root).word (512 + j)
  head : 0 < count → (after.data root).word 0 = (state.data root).word 0
  first : count = 0 → answer state.ctl = some ((after.data root).word 0)

namespace Underway

variable {stop : GrowthEnd}

/-- The root counts the blocks of the growth so far. -/
theorem count_eq
    (underway : Underway fresh own db root limit blocks indexes target stop count state) :
    ptNblocks state root = count := by
  obtain ⟨later, blocks', indexes', grown⟩ := underway.grown
  rw [ptNblocks, grown.held.table.count, grown.length]

/-- A growth begins with the blocks that the table holds. -/
theorem begins (held : HeldTable (steadyContract fresh) own db root limit blocks indexes)
    (ends : growthEnd answer limit (target - blocks.length) blocks.length db.ctl = stop) :
    Underway fresh own db root limit blocks indexes target stop blocks.length db where
  grown := ⟨own, blocks, indexes, Grown.refl held⟩
  ahead := ends
  untouched := fun _ _ _ => rfl
  head := by
    rintro rfl some
    exact absurd some (Nat.lt_irrefl 0)
  start := fun _ => rfl

/-- One round further. -/
theorem step {after : Db (List BlockEvent)}
    (underway : Underway fresh own db root limit blocks indexes target stop count state)
    (grown : GrownTo (steadyContract fresh) own db root limit blocks indexes (count + 1) after)
    (ahead : growthEnd answer limit (target - (count + 1)) (count + 1) after.ctl = stop)
    (frame : RoundFrame answer root count state after) (above : blocks.length ≤ count) :
    Underway fresh own db root limit blocks indexes target stop (count + 1) after := by
  have more : indexCount count ≤ indexCount (count + 1) := by
    unfold indexCount
    omega
  refine ⟨grown, ahead, ?_, ?_, fun same => by omega⟩
  · intro other apart avoids
    rw [frame.others other apart avoids]
    refine underway.untouched other apart fun j inside => ?_
    rw [← frame.words j inside]
    exact avoids j (Nat.lt_of_lt_of_le inside more)
  · intro empty _
    by_cases some : 0 < count
    · rw [frame.head some]
      exact underway.head empty some
    · have none : count = 0 := by omega
      rw [← underway.start (by rw [empty, none]; rfl)]
      exact frame.first none

/-- From the state at a refusal, whose root keeps the table's words. -/
theorem stopped (underway : Underway fresh own db root limit blocks indexes target stop count state)
    (held : HeldTable (steadyContract fresh) own db root limit blocks indexes)
    (grown : Grown (steadyContract fresh) own later db state root limit blocks indexes count
      blocks' indexes')
    (account : (outstanding db.ctl).Perm (blocks ++ indexes ++ others))
    {last : Ownership} {less : Nat}
    (heldFailed : HeldTable (steadyContract fresh) last failed root less blocks' indexes')
    (out : outstanding failed.ctl = extra ++ outstanding state.ctl)
    (same : ∀ block, block ≠ root → failed.data block = state.data block)
    (header : ∀ offset, 4 * (512 + limit) ≤ offset → offset < 4092 →
      failed.data root offset = state.data root offset)
    (unused : count = 0 → answer state.ctl = none ∧ failed.data root = state.data root) :
    Stopped fresh db failed root limit blocks others extra := by
  have accountState := grown.change.account held grown.held account
  have length := grown.length
  obtain ⟨added, rfl⟩ := grown.extends_
  have distinct := List.nodup_append.mp (List.nodup_cons.mp grown.held.distinct).2
  refine ⟨⟨last, less, added, indexes', heldFailed, ?_, ?_, ?_⟩, ?_⟩
  · rw [out]
    exact accountState.append_left extra
  · intro page member
    have notRoot : page ≠ root := by
      rintro rfl
      exact grown.held.root_not_mem (List.mem_append_left _ member)
    rw [same page notRoot]
    refine underway.untouched page notRoot fun j inside => ?_
    have within : j < indexes'.length := by rw [grown.held.table.spans, length]; exact inside
    rw [grown.held.table.index j _ (List.getElem?_eq_getElem within)]
    exact fun here => distinct.2.2 page member _ (List.getElem_mem within) here.symm
  · rintro rfl
    rw [List.nil_append] at length grown
    cases added with
    | nil =>
        have none : count = 0 := length.symm
        have same := underway.start none
        obtain ⟨refused, root⟩ := unused none
        rw [same] at refused root
        exact ⟨refused.symm, fun _ => root⟩
    | cons page rest =>
        refine ⟨?_, fun empty => by cases empty⟩
        have first := grown.held.table.direct 0 page (by decide) rfl
        rw [underway.head rfl (by rw [← length]; exact Nat.succ_pos _), first]
        rfl
  · intro offset low high
    rw [header offset low high, grown.change.header offset low high]

end Underway

/-- A refusal changes nothing but the history. -/
def refuse (db : Db (List BlockEvent)) : Db (List BlockEvent) :=
  { db with ctl := .refused :: db.ctl }

/-- A refusal leaves the table as it is. -/
theorem HeldTable.refused
    (held : HeldTable (steadyContract fresh) own db root limit blocks indexes) :
    HeldTable (steadyContract fresh) own (refuse db) root limit blocks indexes where
  valid := by
    have same : RecorderValid own (refuse db) := RecorderValid.congr held.valid rfl
    exact same
  table := held.table.congr rfl fun _ _ => rfl
  writable := held.writable
  live := held.live
  distinct := held.distinct

/-- A request that is granted is recorded. -/
theorem recorder_granted {new : Nat} (granted : answer db.ctl = some new) :
    (recorder answer).allocate db = .ok new { db with ctl := .taken new :: db.ctl } := by
  simp only [recorder, granted]

/-- A request that is refused is recorded too, and fails. -/
theorem recorder_refused (refused : answer db.ctl = none) :
    (recorder answer).allocate db = .error (-1) (refuse db) := by
  simp only [recorder, refused, refuse]

/-- A granted round of the loop that grows `data_blocks` is that of an allocator that
refuses nothing. -/
theorem growDataBlocks_granted {new : Nat} (granted : answer state.ctl = some new)
    (counted : (state.data root).word 1023 = count) (low : count < 512)
    (bounded : new < 4294967296) :
    growDataBlocks (recorder answer) root state =
      growDataBlocks (recorder (steady answer)) root state ∧
      ∀ after, growDataBlocks (recorder answer) root state = .ok () after →
        after.ctl = .taken new :: state.ctl ∧ RoundFrame answer root count state after := by
  unfold growDataBlocks
  rw [Code.bind_ok (recorder_granted granted),
    Code.bind_ok (recorder_granted (steady_of_some granted))]
  refine ⟨rfl, ?_⟩
  intro after ran
  rw [load_bind, store_bind, store_run] at ran
  cases ran
  have here : (Db.data (⟨state.data, .taken new :: state.ctl⟩ : Db (List BlockEvent)) root).word
      1023 = count :=
    counted
  rw [here]
  refine ⟨rfl, ?_, ?_, ?_, ?_⟩
  · intro other apart _
    rw [Db.setWord_data_of_ne apart, Db.setWord_data_of_ne apart]
  · intro j inside
    unfold indexCount at inside
    omega
  · intro some
    rw [Db.setWord_data_self, Image.word_setWord_of_ne (by omega), Db.setWord_data_self,
      Image.word_setWord_of_ne (by decide)]
  · rintro rfl
    rw [Db.setWord_data_self, Image.word_setWord_self bounded]
    exact granted

/-- The end of a round of the loop that grows `index_blocks`. -/
def recordEntry {ρ : Type} (root indexBlock dataIndex new : Nat) : Code (Db ρ) Unit := do
  store indexBlock dataIndex new
  let nblocks ← load root nblocksWord
  store root nblocksWord (u32 (nblocks + 1))

/-- Entering a block into an index block leaves all blocks but this and the root. -/
theorem recordEntry_run (root indexBlock dataIndex new : Nat) (apart : indexBlock ≠ root)
    (db : Db (List BlockEvent)) :
    ∃ after, recordEntry root indexBlock dataIndex new db = .ok () after ∧ after.ctl = db.ctl ∧
      (∀ other, other ≠ root → other ≠ indexBlock → after.data other = db.data other) ∧
      ∀ i, i ≠ 1023 → (after.data root).word i = (db.data root).word i := by
  refine ⟨_, rfl, rfl, ?_, ?_⟩
  · intro other notRoot notIndex
    rw [Db.setWord_data_of_ne notRoot, Db.setWord_data_of_ne notIndex]
  · intro i notCount
    rw [Db.setWord_data_self, Image.word_setWord_of_ne notCount, Db.setWord_data_of_ne apart.symm]

/-- A round of the loop that grows `index_blocks`, behind an index block in use. -/
theorem growIndexBlocks_open {api : BlockApi (Db (List BlockEvent))} {indexBlock : Nat}
    (counted : (db.data root).word 1023 = count)
    (here : (db.data root).word (indexWord (index0 count)) = indexBlock) (inUse : indexBlock ≠ 0)
    (modify : api.modify indexBlock db = .ok indexBlock db) :
    growIndexBlocks api root db =
      (api.allocate >>= recordEntry root indexBlock (index1 count)) db := by
  have same : db.setWord root (indexWord (index0 count)) indexBlock = db := by
    rw [Db.setWord, ← here, Image.setWord_word, Db.write_same]
  unfold growIndexBlocks
  rw [load_bind, counted, load_bind, here, openIndexBlock, if_neg inUse,
    Code.bind_ok modify, store_bind, same]
  rfl

/-- A round of the loop that grows `index_blocks`, with a fresh index block. -/
theorem growIndexBlocks_fresh {api : BlockApi (Db (List BlockEvent))}
    (counted : (db.data root).word 1023 = count)
    (unused : (db.data root).word (indexWord (index0 count)) = 0) :
    growIndexBlocks api root db =
      (api.allocate >>= fun indexBlock =>
        store root (indexWord (index0 count)) indexBlock >>= fun _ =>
        api.allocate >>= recordEntry root indexBlock (index1 count)) db := by
  unfold growIndexBlocks
  rw [load_bind, counted, load_bind, unused, openIndexBlock, if_pos rfl]
  rfl

/-- One more request than the table has data blocks. -/
theorem growthEnd_succ (below : count < 512 + 1024 * limit) (history : List BlockEvent) :
    growthEnd answer limit (more + 1) count history =
      match answer history with
      | none => .refused
      | some block =>
          if count < 512 ∨ (count - 512) % 1024 ≠ 0 then
            growthEnd answer limit more (count + 1) (.taken block :: history)
          else
            match answer (.taken block :: history) with
            | none => .afterIndex
            | some new =>
                growthEnd answer limit more (count + 1)
                  (.taken new :: .taken block :: history) := by
  rw [growthEnd, if_neg (by omega)]

section Rounds

variable {stop : GrowthEnd}

/-- The room that a grown table leaves to the allocator. -/
theorem Grown.room_left
    (held : HeldTable (steadyContract fresh) own db root limit blocks indexes)
    (grown : Grown (steadyContract fresh) own later db state root limit blocks indexes count
      blocks' indexes')
    (account : (outstanding db.ctl).Perm (blocks ++ indexes ++ others))
    (few : others.length ≤ 4293402111) :
    2 ≤ later.room := by
  have valid : RecorderValid later state := grown.held.valid
  have total := valid.room
  have size := (grown.change.account held grown.held account).length_eq
  have limited := grown.held.table.limited
  have fits := grown.held.table.fits
  have spans := grown.held.table.spans
  rw [indexCount] at spans
  simp only [List.length_append] at size
  omega

/-- A round of the loop that grows `data_blocks`. -/
theorem growDataBlocks_round
    (held : HeldTable (steadyContract fresh) own db root limit blocks indexes)
    (underway : Underway fresh own db root limit blocks indexes target stop count state)
    (account : (outstanding db.ctl).Perm (blocks ++ indexes ++ others))
    (few : others.length ≤ 4293402111) (low : count < 512) (below : count < target) :
    (∃ after, growDataBlocks (recorder answer) root state = .ok () after ∧
      Underway fresh own db root limit blocks indexes target stop (count + 1) after) ∨
    ∃ code failed, growDataBlocks (recorder answer) root state = .error code failed ∧
      Refusal fresh stop db root limit blocks others code failed := by
  obtain ⟨later, blocks', indexes', grown⟩ := underway.grown
  have length := grown.length
  have above := grown.le
  have room := grown.room_left held account few
  have ahead := underway.ahead
  rw [show target - count = target - (count + 1) + 1 by omega, growthEnd_succ (by omega)] at ahead
  cases given : answer state.ctl with
  | none =>
      rw [given] at ahead
      refine .inr ⟨-1, refuse state, ?_, rfl, .inl ⟨ahead.symm, ?_⟩⟩
      · rw [growDataBlocks, Code.bind_error (recorder_refused given)]
      · exact underway.stopped held grown account grown.held.refused rfl (fun _ _ =>
          rfl) (fun _ _ _ => rfl)
          fun _ => ⟨given, rfl⟩
  | some new =>
      rw [given] at ahead
      have counted : (state.data root).word 1023 = count := by rw [grown.held.table.count, length]
      obtain ⟨same, frames⟩ := growDataBlocks_granted given counted low (fresh _ _ given).2.2
      obtain ⟨taken, after, ran, heldAfter, change, committed⟩ :=
        growDataBlocks_spec grown.held (by omega) (by omega)
      rw [← same] at ran
      obtain ⟨history, frame⟩ := frames after ran
      refine .inl ⟨after, ran,
        underway.step ⟨_, _, _, grown.step heldAfter change committed ?_⟩ ?_ frame above⟩
      · simp only [Ownership.taken]
        omega
      · rw [history]
        simpa [low] using ahead

/-- The table after a fresh index block was stored and nothing behind it. -/
theorem HeldTable.openedIndex {index : Nat}
    (held : HeldTable (steadyContract fresh) own state root limit blocks indexes)
    (room : 0 < own.room) (granted : answer state.ctl = some index)
    (high : 512 ≤ blocks.length) (boundary : (blocks.length - 512) % 1024 = 0)
    (below : blocks.length < 512 + 1024 * limit) :
    HeldTable (steadyContract fresh) (own.taken index)
      (refuse (Db.setWord ⟨state.data, .taken index :: state.ctl⟩ root
        (512 + (blocks.length - 512) / 1024) index)) root
        ((blocks.length - 512) / 1024) blocks indexes := by
  have table := held.table
  have limited := table.limited
  have spans := table.spans
  rw [indexCount] at spans
  have valid : RecorderValid own state := held.valid
  obtain ⟨unused, number⟩ := fresh state.ctl index granted
  set opened : Db (List BlockEvent) := Db.setWord ⟨state.data, .taken index :: state.ctl⟩ root
    (512 + (blocks.length - 512) / 1024) index with openedDef
  have rootBytes : opened.data root =
      (state.data root).setWord (512 + (blocks.length - 512) / 1024) index := by
    rw [openedDef, Db.setWord_data_self]
  have word : ∀ i, i ≠ 512 + (blocks.length - 512) / 1024 →
      (opened.data root).word i = (state.data root).word i := by
    intro i other
    rw [rootBytes, Image.word_setWord_of_ne other]
  refine ⟨(valid.take room unused number).congr rfl,
    ⟨?_, by omega, by omega, table.spans, ?_, ?_, ?_, ?_⟩,
    .inl held.writable, fun block member => .inl (held.live block member), held.distinct⟩
  · exact (word 1023 (by omega)).trans table.count
  · intro i block small found
    exact (word i (by omega)).trans (table.direct i block small found)
  · intro j block found
    obtain ⟨inside, _⟩ := List.getElem?_eq_some_iff.mp found
    exact (word (512 + j) (by omega)).trans (table.index j block found)
  · intro i block place low found there
    have notRoot : place ≠ root := by
      rintro rfl
      exact held.root_not_mem (List.mem_append_right _ (List.mem_of_getElem? there))
    have same : (refuse opened).data place = state.data place := Db.setWord_data_of_ne notRoot
    rw [same]
    exact table.entry i block place low found there
  · intro j above under
    omega

/-- The frame of a round whose index block is at its place. -/
theorem RoundFrame.of_entry {opened after : Db (List BlockEvent)} {index : Nat} (high : 512 ≤ count)
    (small : (count - 512) / 1024 < 511)
    (openedOthers : ∀ other, other ≠ root → opened.data other = state.data other)
    (openedWords : ∀ i, i ≠ 512 + (count - 512) / 1024 →
      (opened.data root).word i = (state.data root).word i)
    (here : (opened.data root).word (512 + (count - 512) / 1024) = index)
    (again : (count - 512) / 1024 < indexCount count →
      (state.data root).word (512 + (count - 512) / 1024) = index)
    (others : ∀ other, other ≠ root → other ≠ index → after.data other = opened.data other)
    (words : ∀ i, i ≠ 1023 → (after.data root).word i = (opened.data root).word i) :
    RoundFrame answer root count state after := by
  refine ⟨?_, ?_, ?_, fun none => by omega⟩
  · intro other apart avoids
    have notIndex := avoids ((count - 512) / 1024) (by unfold indexCount; omega)
    rw [words _ (by omega), here] at notIndex
    rw [others other apart notIndex.symm, openedOthers other apart]
  · intro j inside
    have bound : j ≤ (count - 512) / 1024 := by
      unfold indexCount at inside
      omega
    rw [words _ (by omega)]
    by_cases last : j = (count - 512) / 1024
    · subst last
      rw [here, again inside]
    · exact openedWords _ (by omega)
  · intro _
    rw [words 0 (by decide), openedWords 0 (by omega)]

/-- A round of the loop that grows `index_blocks`. -/
theorem growIndexBlocks_round
    (held : HeldTable (steadyContract fresh) own db root limit blocks indexes)
    (underway : Underway fresh own db root limit blocks indexes target stop count state)
    (account : (outstanding db.ctl).Perm (blocks ++ indexes ++ others))
    (few : others.length ≤ 4293402111)
    (high : 512 ≤ count) (unfinished : count < target) (notFull : stop ≠ .full) :
    (∃ after, growIndexBlocks (recorder answer) root state = .ok () after ∧
      Underway fresh own db root limit blocks indexes target stop (count + 1) after) ∨
    ∃ code failed, growIndexBlocks (recorder answer) root state = .error code failed ∧
      Refusal fresh stop db root limit blocks others code failed := by
  obtain ⟨later, blocks', indexes', grown⟩ := underway.grown
  have length := grown.length
  have above := grown.le
  have room := grown.room_left held account few
  have table := grown.held.table
  have limited := table.limited
  have spans := table.spans
  have spans' := spans
  rw [indexCount] at spans'
  have ahead := underway.ahead
  rw [show target - count = target - (count + 1) + 1 by omega] at ahead
  have below : count < 512 + 1024 * limit := by
    by_contra past
    rw [growthEnd, if_pos (by omega)] at ahead
    exact notFull ahead.symm
  rw [growthEnd_succ below] at ahead
  have counted : (state.data root).word 1023 = count := by rw [table.count, length]
  have place : indexWord (index0 count) = 512 + (count - 512) / 1024 := by
    rw [index0_eq high (by omega)]
    rfl
  have valid : RecorderValid later state := grown.held.valid
  -- the steady allocator's round, once both requests are granted
  obtain ⟨new, last, after, indexes'', steadyRan, heldAfter, change, committed, spent⟩ :=
    growIndexBlocks_spec grown.held (by omega) (by omega) room
  have next : GrownTo (steadyContract fresh) own db root limit blocks indexes (count + 1) after :=
    ⟨_, _, _, grown.step heldAfter change committed spent⟩
  by_cases boundary : (count - 512) % 1024 = 0
  · have unused : (state.data root).word (indexWord (index0 count)) = 0 := by
      rw [place]
      exact table.clear _ (by omega) (by omega)
    have inside : ¬(count < 512 ∨ (count - 512) % 1024 ≠ 0) := by omega
    rw [growIndexBlocks_fresh counted unused] at steadyRan ⊢
    cases given : answer state.ctl with
    | none =>
        rw [given] at ahead
        refine .inr ⟨-1, refuse state, Code.bind_error (recorder_refused given), rfl,
          .inl ⟨ahead.symm, ?_⟩⟩
        exact underway.stopped held grown account grown.held.refused rfl (fun _ _ =>
          rfl) (fun _ _ _ => rfl)
          fun none => by omega
    | some index =>
        rw [given] at ahead
        simp only [if_neg inside] at ahead
        rw [Code.bind_ok (recorder_granted given), store_bind]
        rw [Code.bind_ok (recorder_granted (steady_of_some given)), store_bind] at steadyRan
        set opened : Db (List BlockEvent) := Db.setWord ⟨state.data, .taken index :: state.ctl⟩ root
          (indexWord (index0 count)) index with openedDef
        have bytes :
            opened.data root = (state.data root).setWord (512 + (count - 512) / 1024) index := by
          rw [openedDef, Db.setWord_data_self, place]
        have openedOthers : ∀ other, other ≠ root → opened.data other = state.data other :=
          fun other apart => Db.setWord_data_of_ne apart
        cases again : answer opened.ctl with
        | none =>
            rw [show answer (.taken index :: state.ctl) = none from again] at ahead
            refine .inr ⟨-1, refuse opened, Code.bind_error (recorder_refused again), rfl,
              .inr ⟨ahead.symm, index, ?_⟩⟩
            have edge : (blocks'.length - 512) % 1024 = 0 := by rw [length, boundary]
            have more : 512 ≤ blocks'.length := by rw [length]; exact high
            have less : blocks'.length < 512 + 1024 * limit := by rw [length]; exact below
            have spare : 0 < later.room := by omega
            have opening := grown.held.openedIndex spare given more edge less
            rw [length, ← place] at opening
            have out : outstanding (refuse opened).ctl = [index] ++ outstanding state.ctl := rfl
            refine underway.stopped held grown account opening out openedOthers ?_ fun none => by
              omega
            intro offset low under
            have same : (refuse opened).data root = opened.data root := rfl
            rw [same, bytes, Image.setWord_byte_of_ne (by omega)]
        | some data =>
            rw [show answer (.taken index :: state.ctl) = some data from again] at ahead
            rw [Code.bind_ok (recorder_granted again)]
            rw [Code.bind_ok (recorder_granted (steady_of_some again))] at steadyRan
            have number := fresh state.ctl index given
            have notRoot : index ≠ root := by
              rintro rfl
              exact number.1 ((valid.writable index).mp grown.held.writable)
            obtain ⟨_, recorded, history, others, words⟩ :=
              recordEntry_run root index (index1 count) data notRoot
              ⟨opened.data, .taken data :: opened.ctl⟩
            rw [recorded] at steadyRan
            cases steadyRan
            refine .inl ⟨_, recorded, underway.step next (by rw [history]; exact ahead)
              (.of_entry high (by omega) openedOthers ?_ ?_ ?_ others words) above⟩
            · intro i apart
              rw [bytes, Image.word_setWord_of_ne apart]
            · rw [bytes, Image.word_setWord_self number.2.2]
            · intro within
              unfold indexCount at within
              omega
  · have partly : indexes'.length = (count - 512) / 1024 + 1 := by omega
    obtain ⟨index, found⟩ : ∃ index, indexes'[(count - 512) / 1024]? = some index :=
      ⟨_, List.getElem?_eq_getElem (by omega)⟩
    have member : index ∈ blocks' ++ indexes' :=
      List.mem_append_right _ (List.mem_of_getElem? found)
    have there : (state.data root).word (512 + (count - 512) / 1024) = index :=
      table.index _ _ found
    have here : (state.data root).word (indexWord (index0 count)) = index := by rw [place, there]
    have inUse : index ≠ 0 :=
      Nat.ne_of_gt (valid.numbers index ((valid.live index).mp (grown.held.live index member))).1
    have notRoot : index ≠ root := by
      rintro rfl
      exact grown.held.root_not_mem member
    rw [growIndexBlocks_open counted here inUse rfl] at steadyRan ⊢
    have inside : count < 512 ∨ (count - 512) % 1024 ≠ 0 := .inr boundary
    cases given : answer state.ctl with
    | none =>
        rw [given] at ahead
        refine .inr ⟨-1, refuse state, Code.bind_error (recorder_refused given), rfl,
          .inl ⟨ahead.symm, ?_⟩⟩
        exact underway.stopped held grown account grown.held.refused rfl (fun _ _ =>
          rfl) (fun _ _ _ => rfl)
          fun none => by omega
    | some data =>
        rw [given] at ahead
        simp only [if_pos inside] at ahead
        rw [Code.bind_ok (recorder_granted given)]
        rw [Code.bind_ok (recorder_granted (steady_of_some given))] at steadyRan
        obtain ⟨_, recorded, history, others, words⟩ :=
          recordEntry_run root index (index1 count) data notRoot
          ⟨state.data, .taken data :: state.ctl⟩
        rw [recorded] at steadyRan
        cases steadyRan
        exact .inl ⟨_, recorded, underway.step next (by rw [history]; exact ahead)
          (.of_entry high (by omega) (fun _ _ => rfl) (fun _ _ => rfl) there (fun _ =>
            there) others words)
          above⟩

end Rounds

namespace Underway

variable {stop : GrowthEnd}

/-- The loop that grows `data_blocks`. -/
theorem dataBlocks
    (held : HeldTable (steadyContract fresh) own db root limit blocks indexes)
    (account : (outstanding db.ctl).Perm (blocks ++ indexes ++ others))
    (few : others.length ≤ 4293402111)
    (start : Underway fresh own db root limit blocks indexes target stop blocks.length db) :
    (∃ after, Code.whileLoop (fun db => ptNblocks db root < target && ptNblocks db root < levelOne)
        (growDataBlocks (recorder answer) root) 4294967296 db = .ok () after ∧
      Underway fresh own db root limit blocks indexes target stop
        (max blocks.length (min target 512)) after) ∨
    ∃ code failed, Code.whileLoop (fun db =>
      ptNblocks db root < target && ptNblocks db root < levelOne)
        (growDataBlocks (recorder answer) root) 4294967296 db = .error code failed ∧
      Refusal fresh stop db root limit blocks others code failed := by
  have table := held.table
  have limited := table.limited
  have fits := table.fits
  apply Code.whileLoop_until (Underway fresh own db root limit blocks indexes target stop)
    (Refusal fresh stop db root limit blocks others) blocks.length
  · intro count state below underway
    obtain ⟨later, blocks', indexes', grown⟩ := underway.grown
    have first := grown.le
    constructor
    · simp only [underway.count_eq, levelOne, Bool.and_eq_true, decide_eq_true_eq]
      omega
    · exact growDataBlocks_round held underway account few (by omega) (by omega)
  · intro state underway
    simp only [underway.count_eq, levelOne, Bool.and_eq_false_iff, decide_eq_false_iff_not]
    omega
  · omega
  · omega
  · exact start

/-- The loop that grows `index_blocks`. -/
theorem indexBlocks
    (held : HeldTable (steadyContract fresh) own db root limit blocks indexes)
    (account : (outstanding db.ctl).Perm (blocks ++ indexes ++ others))
    (few : others.length ≤ 4293402111)
    (start : Underway fresh own db root limit blocks indexes target stop count state)
    (high : count < target → 512 ≤ count) (grows : count ≤ target) (short : target < 4294967296)
    (notFull : stop ≠ .full) :
    (∃ after, Code.whileLoop (fun db => ptNblocks db root < target)
        (growIndexBlocks (recorder answer) root) 4294967296 state = .ok () after ∧
      Underway fresh own db root limit blocks indexes target stop target after) ∨
    ∃ code failed, Code.whileLoop (fun db => ptNblocks db root < target)
        (growIndexBlocks (recorder answer) root) 4294967296 state = .error code failed ∧
      Refusal fresh stop db root limit blocks others code failed := by
  have loop : (∃ after, Code.whileLoop (fun db => ptNblocks db root < target)
        (growIndexBlocks (recorder answer) root) 4294967296 state = .ok () after ∧ count ≤ target ∧
          Underway fresh own db root limit blocks indexes target stop target after) ∨
      ∃ code failed, Code.whileLoop (fun db => ptNblocks db root < target)
        (growIndexBlocks (recorder answer) root) 4294967296 state = .error code failed ∧
          Refusal fresh stop db root limit blocks others code failed := by
    apply Code.whileLoop_until (fun reached state => count ≤ reached ∧
      Underway fresh own db root limit blocks indexes target stop reached state) _ count
    · rintro reached state below ⟨above, underway⟩
      constructor
      · simp only [underway.count_eq, decide_eq_true_eq]
        exact below
      · rcases growIndexBlocks_round held underway account few (by omega) below notFull with
          ⟨after, ran, next⟩ | refused
        · exact .inl ⟨after, ran, by omega, next⟩
        · exact .inr refused
    · rintro state ⟨_, underway⟩
      simp only [underway.count_eq, decide_eq_false_iff_not]
      omega
    · exact grows
    · omega
    · exact ⟨Nat.le_refl _, start⟩
  exact loop.imp_left fun ⟨after, ran, _, done⟩ => ⟨after, ran, done⟩

end Underway

/-- `page_resize` to a size that is not smaller ends as the answers say. -/
theorem pageResize_answered
    (held : HeldTable (steadyContract fresh) own db root limit blocks indexes)
    (account : (outstanding db.ctl).Perm (blocks ++ indexes ++ others))
    (few : others.length ≤ 4293402111)
    (grows : blocks.length ≤ target) (short : target < 4294967296) {stop : GrowthEnd}
    (ends : growthEnd answer limit (target - blocks.length) blocks.length db.ctl = stop)
    (notFull : stop ≠ .full) :
    (∃ after, pageResize (recorder answer) root target db = .ok () after ∧ stop = .reached ∧
      GrownTo (steadyContract fresh) own db root limit blocks indexes target after) ∨
    ∃ code failed, pageResize (recorder answer) root target db = .error code failed ∧
      Refusal fresh stop db root limit blocks others code failed := by
  have start : Underway fresh own db root limit blocks indexes target stop blocks.length db :=
    .begins held ends
  have modify : (recorder answer).modify root db = .ok root db := rfl
  unfold pageResize
  rw [Code.bind_ok modify]
  rcases start.dataBlocks held account few with
    ⟨middle, ran, underway⟩ | ⟨code, failed, ran, refusal⟩
  · rw [Code.bind_ok ran]
    rcases underway.indexBlocks held account few (by omega) (by omega) short notFull with
      ⟨after, ran, done⟩ | ⟨code, failed, ran, refusal⟩
    · have count := done.count_eq
      have reached := done.ahead
      rw [Nat.sub_self, growthEnd] at reached
      refine .inl ⟨after, ?_, reached.symm, done.grown⟩
      rw [Code.bind_ok ran, Code.bind_ok (Code.whileLoop_skip _), Code.whileLoop_skip _]
      · simp [count]
      · simp [count]
    · exact .inr ⟨code, failed, Code.bind_error ran, refusal⟩
  · exact .inr ⟨code, failed, Code.bind_error ran, refusal⟩

/-- `page_resize` to a size that is not larger only shrinks. -/
theorem pageResize_shrinks (fewer : target ≤ ptNblocks db root) :
    pageResize (recorder answer) root target db =
      (Code.whileLoop (fun db => ptNblocks db root > target && ptNblocks db root > levelOne)
          (shrinkIndexBlocks (recorder answer) root) 4294967296 >>= fun _ =>
        Code.whileLoop (fun db => ptNblocks db root > target)
          (shrinkDataBlocks (recorder answer) root) 4294967296) db := by
  have modify : (recorder answer).modify root db = .ok root db := rfl
  unfold pageResize
  rw [Code.bind_ok modify, Code.bind_ok (Code.whileLoop_skip _),
    Code.bind_ok (Code.whileLoop_skip _)]
  · simp only [decide_eq_false_iff_not]
    omega
  · simp only [Bool.and_eq_false_iff, decide_eq_false_iff_not]
    omega

/-- Shrinking asks for no block. -/
theorem pageResize_shrink_answered {other : List BlockEvent → Option Nat}
    (fewer : target ≤ ptNblocks db root) :
    pageResize (recorder answer) root target db = pageResize (recorder other) root target db := by
  rw [pageResize_shrinks fewer, pageResize_shrinks fewer]
  rfl

/-- What a refused growth must leave: the earlier indexes keep their blocks, `nblocks`
counts the indexes that are mapped, and resizing to nothing gives back every block
but the root, each once. -/
structure Recoverable (answer : List BlockEvent → Option Nat) (root : Nat)
    (db failed : Db (List BlockEvent)) : Prop where
  kept : ∀ i, i < ptNblocks db root → pageReadHostIndex failed root i = pageReadHostIndex db root i
  counted : ∃ mapped : List Nat, ptNblocks failed root = mapped.length ∧ (root :: mapped).Nodup ∧
    ∀ i block, mapped[i]? = some block → pageReadHostIndex failed root i = (0, block)
  returned : ∃ emptied, pageResize (recorder answer) root 0 failed = .ok () emptied ∧
    (outstanding emptied.ctl).Perm [root]

/-- Resizing a refused table to nothing leaves the blocks `extra`. -/
theorem Stopped.emptied (stopped : Stopped fresh db failed root limit blocks [root] extra)
    (few : extra.length ≤ 1) :
    ∃ emptied, pageResize (recorder answer) root 0 failed = .ok () emptied ∧
      (outstanding emptied.ctl).Perm (extra ++ [root]) := by
  obtain ⟨own, less, added, indexes, held, account, _⟩ := stopped.table
  have arranged : (outstanding failed.ctl).Perm (blocks ++ added ++ indexes ++ (extra ++ [root])) :=
    account.trans (List.perm_append_comm_assoc extra (blocks ++ added ++ indexes) [root])
  obtain ⟨later, emptied, blocks', indexes', ran, heldAfter, accountAfter, none, _⟩ :=
    pageResize_recorded held arranged (by simp; omega) (Nat.zero_le _)
  have spans := heldAfter.table.spans
  rw [none] at spans
  rw [List.eq_nil_of_length_eq_zero none, List.eq_nil_of_length_eq_zero spans] at accountAfter
  exact ⟨emptied, (pageResize_shrink_answered (Nat.zero_le _)).trans ran, accountAfter⟩

/-- A refusal that leaves no block outside the table. -/
theorem Stopped.recoverable (table : PageTable db root limit blocks indexes)
    (stopped : Stopped fresh db failed root limit blocks [root] []) :
    Recoverable answer root db failed := by
  refine ⟨?_, ?_, stopped.emptied (by simp)⟩
  · obtain ⟨own, less, added, indexes', held, account, _⟩ := stopped.table
    intro i inside
    rw [ptNblocks, table.count] at inside
    have found := List.getElem?_eq_getElem inside
    rw [table.read found]
    exact held.table.read ((List.getElem?_append_left inside).trans found)
  · obtain ⟨own, less, added, indexes', held, account, _⟩ := stopped.table
    refine ⟨blocks ++ added, held.table.count, ?_, fun i block found => held.table.read found⟩
    exact held.distinct.sublist (List.Sublist.cons_cons _ (List.sublist_append_left _ _))

/-- A refusal that leaves an index block outside the table. -/
theorem Stopped.not_recoverable {index : Nat}
    (stopped : Stopped fresh db failed root limit blocks [root] [index]) :
    ¬Recoverable answer root db failed := by
  intro recoverable
  obtain ⟨emptied, ran, account⟩ := stopped.emptied (by simp)
  obtain ⟨emptied', ran', account'⟩ := recoverable.returned
  rw [ran] at ran'
  cases ran'
  have sizes := account.length_eq.symm.trans account'.length_eq
  simp at sizes

/-- A growth that is refused the first data block behind a fresh index block loses the
index block. -/
theorem pageResize_loses_index
    (held : HeldTable (steadyContract fresh) own db root limit blocks indexes)
    (account : (outstanding db.ctl).Perm (blocks ++ indexes ++ [root]))
    (grows : blocks.length ≤ target) (short : target < 4294967296)
    (ends : growthEnd answer limit (target - blocks.length) blocks.length db.ctl = .afterIndex) :
    ∃ failed, pageResize (recorder answer) root target db = .error (-1) failed ∧
      ¬Recoverable answer root db failed := by
  rcases pageResize_answered held account (by simp) grows short ends (by decide) with
    ⟨after, _, reached, _⟩ | ⟨code, failed, ran, rfl, ⟨other, _⟩ | ⟨_, index, stopped⟩⟩
  · cases reached
  · cases other
  · exact ⟨failed, ran, stopped.not_recoverable⟩

/-- A growth of a page table that fails can be undone if the first request refused is
not the one for the first data block behind a fresh index block, and cannot if it is.
Growth past the last index entry is left out. -/
theorem pageResize_recoverable_iff
    (held : HeldTable (steadyContract fresh) own db root limit blocks indexes)
    (account : (outstanding db.ctl).Perm (blocks ++ indexes ++ [root]))
    (grows : blocks.length ≤ target) (short : target < 4294967296) :
    (growthEnd answer limit (target - blocks.length) blocks.length db.ctl = .reached ∨
        growthEnd answer limit (target - blocks.length) blocks.length db.ctl = .refused →
      ∀ code failed, pageResize (recorder answer) root target db = .error code failed →
        Recoverable answer root db failed) ∧
    (growthEnd answer limit (target - blocks.length) blocks.length db.ctl = .afterIndex →
      ∃ code failed, pageResize (recorder answer) root target db = .error code failed ∧
        ¬Recoverable answer root db failed) := by
  constructor
  · intro ends code failed ran
    have notFull :
        growthEnd answer limit (target - blocks.length) blocks.length db.ctl ≠ .full := by
      rcases ends with reached | refused
      · simp [reached]
      · simp [refused]
    rcases pageResize_answered held account (by simp) grows short rfl notFull with
      ⟨after, ranAfter, _, _⟩ | ⟨code', failed', ran', _, ⟨_, stopped⟩ | ⟨index, _⟩⟩
    · rw [ran] at ranAfter
      cases ranAfter
    · rw [ran] at ran'
      cases ran'
      exact stopped.recoverable held.table
    · simp [index] at ends
  · intro ends
    obtain ⟨failed, ran, lost⟩ := pageResize_loses_index held account grows short ends
    exact ⟨-1, failed, ran, lost⟩

/-- An allocator that answers until it has seen `most` calls. -/
def supply (most : Nat) (history : List BlockEvent) : Option Nat :=
  if history.length < most ∧ 5 + history.length ∉ outstanding history then some (5 + history.length)
  else none

/-- A bounded supply gives out numbers that are not in use. -/
theorem supply_fresh {most : Nat} (few : most ≤ 4294967291) : FreshAnswers (supply most) := by
  intro history block granted
  unfold supply at granted
  split at granted
  · rename_i allowed
    cases granted
    exact ⟨allowed.2, by omega, by omega⟩
  · cases granted

/-- The numbers in use lie below the one that a supply gives out next. -/
def Numbered (history : List BlockEvent) : Prop :=
  ∀ block ∈ outstanding history, block < 5 + history.length

/-- A supply that has blocks left gives out the next number. -/
theorem Numbered.supply_some {most : Nat} {history : List BlockEvent}
    (numbered : Numbered history) (left : history.length < most) :
    supply most history = some (5 + history.length) :=
  if_pos ⟨left, fun inUse => Nat.lt_irrefl _ (numbered _ inUse)⟩

/-- A supply without blocks left refuses. -/
theorem supply_none {most : Nat} {history : List BlockEvent} (spent : most ≤ history.length) :
    supply most history = none :=
  if_neg fun allowed => absurd allowed.1 (Nat.not_lt.mpr spent)

/-- The number given out is in use, and the next one lies above it. -/
theorem Numbered.taken {history : List BlockEvent} (numbered : Numbered history) :
    Numbered (.taken (5 + history.length) :: history) := by
  intro block inUse
  rw [List.length_cons]
  rcases List.mem_cons.mp inUse with rfl | before
  · omega
  · exact Nat.lt_succ_of_lt (numbered block before)

/-- A growth over the data blocks of the root takes the next numbers of a supply. -/
theorem growthEnd_supply (most limit more n : Nat) {count : Nat} {history : List BlockEvent}
    (numbered : Numbered history) (low : count + n ≤ 512) (enough : history.length + n ≤ most) :
    ∃ later, Numbered later ∧ later.length = history.length + n ∧
      growthEnd (supply most) limit (more + n) count history =
        growthEnd (supply most) limit more (count + n) later := by
  induction n generalizing count history with
  | zero => exact ⟨history, numbered, rfl, rfl⟩
  | succ n ih =>
      obtain ⟨later, still, length, ends⟩ := ih numbered.taken (show count + 1 + n ≤ 512 by omega)
        (by rw [List.length_cons]; omega)
      refine ⟨later, still, by rw [length, List.length_cons]; omega, ?_⟩
      rw [show count + (n + 1) = count + 1 + n by omega, ← ends]
      change growthEnd (supply most) limit (more + n + 1) count history = _
      rw [growthEnd, if_neg (by omega), numbered.supply_some (by omega)]
      exact if_pos (.inl (by omega))

/-- An allocator with 513 blocks behind the root's. -/
def shortSupply : List BlockEvent → Option Nat := supply 514

/-- The supply of the example gives out numbers that are not in use. -/
theorem shortSupply_fresh : FreshAnswers shortSupply := supply_fresh (by decide)

/-- The history of the example, with the root in block 4. -/
theorem rootTaken_numbered : Numbered [.taken 4] := by
  simp [Numbered, outstanding]

/-- It runs out right behind a new index block. -/
theorem shortSupply_ends : growthEnd shortSupply 511 513 0 [.taken 4] = .afterIndex := by
  obtain ⟨later, numbered, length, ends⟩ :=
    growthEnd_supply 514 511 1 512 rootTaken_numbered (show 0 + 512 ≤ 512 by decide) (by decide)
  rw [List.length_singleton] at length
  refine ends.trans ?_
  rw [growthEnd, if_neg (by decide), numbered.supply_some (by omega)]
  change (if 512 < 512 ∨ _ then _ else _) = _
  rw [if_neg (by decide), supply_none (by rw [List.length_cons, length])]

/-- An empty page table in block 4. -/
def emptyTable : Db (List BlockEvent) := ⟨fun _ => Image.zero, [.taken 4]⟩

/-- The empty page table is held. -/
theorem emptyTable_held {answer : List BlockEvent → Option Nat} (fresh : FreshAnswers answer) :
    HeldTable (steadyContract fresh) (holding emptyTable.ctl)
      (emptyTable.write 4 Image.zero) 4 511 [] [] :=
  pageInit_held (by decide) rfl (by decide)

/-- Its root is the only block that is outstanding. -/
theorem emptyTable_account :
    (outstanding (emptyTable.write 4 Image.zero).ctl).Perm ([] ++ [] ++ [4]) := List.Perm.refl _

/-- Growing an empty page table to 513 blocks with 513 blocks to be had: the index block takes
the last one. With 512 blocks the index block is refused, and nothing is lost. -/
theorem pageResize_recoverable_iff_shortSupply :
    (∃ code failed, pageResize (recorder shortSupply) 4 513 (emptyTable.write 4 Image.zero) =
      .error code failed ∧ ¬Recoverable shortSupply 4 (emptyTable.write 4 Image.zero) failed) ∧
    ∃ code failed, pageResize (recorder (supply 513)) 4 513 (emptyTable.write 4 Image.zero) =
      .error code failed ∧ Recoverable (supply 513) 4 (emptyTable.write 4 Image.zero) failed := by
  have refused : growthEnd (supply 513) 511 513 0 [.taken 4] = .refused := by
    obtain ⟨later, _, length, ends⟩ :=
      growthEnd_supply 513 511 1 512 rootTaken_numbered (show 0 + 512 ≤ 512 by decide) (by decide)
    refine ends.trans ?_
    have spent : 513 ≤ later.length := Nat.le_of_eq length.symm
    rw [growthEnd, if_neg (by decide), supply_none spent]
  have held := emptyTable_held (supply_fresh (show 513 ≤ 4294967291 by decide))
  refine ⟨(pageResize_recoverable_iff (emptyTable_held shortSupply_fresh) emptyTable_account
    (Nat.zero_le 513) (by decide)).2 shortSupply_ends, ?_⟩
  rcases pageResize_answered held emptyTable_account (by decide) (Nat.zero_le 513) (by decide)
    refused (by decide) with
    ⟨_, _, reached, _⟩ | ⟨code, failed, ran, _⟩
  · cases reached
  · exact ⟨code, failed, ran,
      (pageResize_recoverable_iff held emptyTable_account (Nat.zero_le 513) (by decide)).1
      (.inr refused) code failed ran⟩

/-- After `page_init` and a refused resize to 513 blocks, a resize to nothing leaves
the index block out. -/
theorem pageResize_leaks_index :
    ∃ failed, (pageInit 4 >>= fun _ => pageResize (recorder shortSupply) 4 513) emptyTable =
      .error (-1) failed ∧ ¬Recoverable shortSupply 4 (emptyTable.write 4 Image.zero) failed := by
  obtain ⟨failed, ran, lost⟩ :=
    pageResize_loses_index (emptyTable_held shortSupply_fresh) emptyTable_account
    (Nat.zero_le 513) (by decide) shortSupply_ends
  refine ⟨failed, ?_, lost⟩
  rw [pageInit, Code.update_bind]
  exact ran

end EverDb
