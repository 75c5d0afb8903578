import EverDb.Edb.Model
import EverDb.Io.Spec
import EverDb.Page.Shrink

/-!
# Resizing a page table

The loops of `page_resize`: growing appends fresh data blocks, shrinking keeps the
first ones. A committed block is written exactly when the shrinking loop takes an
entry out of a committed index block.
-/

namespace EverDb

open Foundation

variable {ρ : Type} {api : BlockApi (Db ρ)} {contract : BlockContract api} {own : Ownership}
  {db : Db ρ} {root limit target : Nat} {blocks indexes : List Nat}

/-- A page table that has grown to `count` data blocks. -/
structure Grown (contract : BlockContract api) (own later : Ownership) (db after : Db ρ)
    (root limit : Nat) (blocks indexes : List Nat) (count : Nat)
    (blocks' indexes' : List Nat) : Prop where
  held : HeldTable contract later after root limit blocks' indexes'
  change : TableChange own later db after root limit blocks indexes blocks' indexes'
  committed : CommittedKept own later db after
  extends_ : ∃ added, blocks' = blocks ++ added
  length : blocks'.length = count
  room : own.room + 2 * blocks.length ≤ later.room + 2 * count

/-- A growth that has not begun. -/
theorem Grown.refl (held : HeldTable contract own db root limit blocks indexes) :
    Grown contract own own db db root limit blocks indexes blocks.length blocks indexes :=
  ⟨held, TableChange.refl _ _ _ _ _ _, CommittedKept.refl _ _, ⟨[], by simp⟩, rfl, Nat.le_refl _⟩

/-- A growth does not lose blocks. -/
theorem Grown.le {later : Ownership} {after : Db ρ} {count : Nat} {blocks' indexes' : List Nat}
    (grown : Grown contract own later db after root limit blocks indexes count blocks' indexes') :
    blocks.length ≤ count := by
  obtain ⟨added, shape⟩ := grown.extends_
  rw [← grown.length, shape, List.length_append]
  omega

/-- One more data block. -/
theorem Grown.step {later last : Ownership} {after final : Db ρ} {count new : Nat}
    {blocks' indexes' indexes'' : List Nat}
    (grown : Grown contract own later db after root limit blocks indexes count blocks' indexes')
    (held : HeldTable contract last final root limit (blocks' ++ [new]) indexes'')
    (change : TableChange later last after final root limit blocks' indexes' (blocks' ++ [new])
      indexes'')
    (committed : CommittedKept later last after final) (room : later.room ≤ last.room + 2) :
    Grown contract own last db final root limit blocks indexes (count + 1) (blocks' ++ [new])
      indexes'' := by
  obtain ⟨added, rfl⟩ := grown.extends_
  have length := grown.length
  have before := grown.room
  refine ⟨held, grown.change.trans change grown.held.distinct held.distinct ?_,
    grown.committed.trans committed, ⟨added ++ [new], by simp⟩, ?_, by omega⟩
  · intro block member _
    simp [member]
  · rw [List.length_append, List.length_singleton, length]

/-- A state in which the page table has grown to `count` data blocks. -/
def GrownTo (contract : BlockContract api) (own : Ownership) (db : Db ρ) (root limit : Nat)
    (blocks indexes : List Nat) (count : Nat) (after : Db ρ) : Prop :=
  ∃ later blocks' indexes',
    Grown contract own later db after root limit blocks indexes count blocks' indexes'

/-- The first loop of `page_resize`. -/
theorem growDataBlocks_loop (held : HeldTable contract own db root limit blocks indexes)
    (more : blocks.length ≤ target) (room : 2 * (target - blocks.length) ≤ own.room) :
    ∃ after, Code.whileLoop (fun db => ptNblocks db root < target && ptNblocks db root < levelOne)
        (growDataBlocks api root) 4294967296 db = .ok () after ∧
      GrownTo contract own db root limit blocks indexes
        (max blocks.length (min target 512)) after := by
  have bounded := held.table.length_lt
  apply Code.whileLoop_up (GrownTo contract own db root limit blocks indexes) blocks.length
  · rintro count state below ⟨later, blocks', indexes', grown⟩
    have length := grown.length
    have first := grown.le
    have before := grown.room
    have counted := grown.held.table.count
    obtain ⟨new, after, ran, held, change, committed⟩ :=
      growDataBlocks_spec grown.held (by omega) (by omega)
    refine ⟨?_, after, ran, _, _, _, grown.step held change committed ?_⟩
    · simp only [ptNblocks, nblocksWord, counted, length, levelOne, Bool.and_eq_true,
        decide_eq_true_eq]
      omega
    · simp only [Ownership.taken]
      omega
  · rintro state ⟨later, blocks', indexes', grown⟩
    have length := grown.length
    have counted := grown.held.table.count
    simp only [ptNblocks, nblocksWord, counted, length, levelOne, Bool.and_eq_false_iff,
      decide_eq_false_iff_not]
    omega
  · omega
  · have := held.table.fits
    omega
  · exact ⟨own, blocks, indexes, Grown.refl held⟩

/-- The second loop of `page_resize`. -/
theorem growIndexBlocks_loop {start : Nat} {state : Db ρ}
    (grown : GrownTo contract own db root limit blocks indexes start state)
    (high : start < target → 512 ≤ start) (more : start ≤ target) (first : blocks.length ≤ start)
    (fits : target ≤ 512 + 1024 * limit) (limited : limit ≤ 511)
    (room : 2 * (target - blocks.length) ≤ own.room) :
    ∃ after, Code.whileLoop (fun db => ptNblocks db root < target)
        (growIndexBlocks api root) 4294967296 state = .ok () after ∧
      GrownTo contract own db root limit blocks indexes target after := by
  obtain ⟨after, ran, _, done⟩ : ∃ after, Code.whileLoop (fun db => ptNblocks db root < target)
      (growIndexBlocks api root) 4294967296 state = .ok () after ∧
        start ≤ target ∧ GrownTo contract own db root limit blocks indexes target after := by
    apply Code.whileLoop_up (fun count state => start ≤ count ∧
      GrownTo contract own db root limit blocks indexes count state) start
    · rintro count state below ⟨reached, later, blocks', indexes', grown⟩
      have length := grown.length
      have before := grown.room
      have counted := grown.held.table.count
      obtain ⟨new, last, after, indexes'', ran, held, change, committed, spent⟩ :=
        growIndexBlocks_spec grown.held (by omega) (by omega) (by omega)
      refine ⟨?_, after, ran, by omega, _, _, _, grown.step held change committed spent⟩
      simp only [ptNblocks, nblocksWord, counted, length, decide_eq_true_eq]
      omega
    · rintro state ⟨_, later, blocks', indexes', grown⟩
      have length := grown.length
      have counted := grown.held.table.count
      simp only [ptNblocks, nblocksWord, counted, length, decide_eq_false_iff_not]
      omega
    · exact more
    · omega
    · exact ⟨Nat.le_refl _, grown⟩
  exact ⟨after, ran, done⟩

/-- `page_resize` to a size that is not smaller. -/
theorem pageResize_grow (held : HeldTable contract own db root limit blocks indexes)
    (more : blocks.length ≤ target) (fits : target ≤ 512 + 1024 * limit)
    (room : 2 * (target - blocks.length) ≤ own.room) :
    ∃ after, pageResize api root target db = .ok () after ∧
      GrownTo contract own db root limit blocks indexes target after := by
  have limited := held.table.limited
  obtain ⟨first, firstRan, firstGrown⟩ := growDataBlocks_loop held more room
  obtain ⟨after, ran, grown⟩ :=
    growIndexBlocks_loop firstGrown (by omega) (by omega) (by omega) fits
    limited room
  obtain ⟨later, blocks', indexes', done⟩ := grown
  have length := done.length
  have counted := done.held.table.count
  have count : ptNblocks after root = target := by rw [ptNblocks, counted, length]
  refine ⟨after, ?_, later, blocks', indexes', done⟩
  unfold pageResize
  rw [Code.bind_ok (contract.modify_writable held.valid held.writable), Code.bind_ok firstRan,
    Code.bind_ok ran, Code.bind_ok (Code.whileLoop_skip _), Code.whileLoop_skip _]
  · simp [count]
  · simp [count]

/-- The index blocks from which shrinking to `count` takes entries. -/
def Touched (length count j : Nat) : Prop :=
  ∃ i, count ≤ i ∧ 512 ≤ i ∧ i < length ∧ j = (i - 512) / 1024

/-- Every index block that shrinking to `count` takes entries from is writable. -/
def TouchesWritable (own : Ownership) (blocks indexes : List Nat) (count : Nat) : Prop :=
  ∀ j index, Touched blocks.length count j → indexes[j]? = some index → own.writable index

/-- A page table that has shrunk to `count` data blocks. -/
structure Shrunk (contract : BlockContract api) (own later : Ownership) (db after : Db ρ)
    (root limit : Nat) (blocks indexes : List Nat) (count : Nat) (indexes' : List Nat) : Prop where
  held : HeldTable contract later after root limit (blocks.take count) indexes'
  change : TableChange own later db after root limit blocks indexes (blocks.take count) indexes'
  origin : IndexOrigin own later (Touched blocks.length count) indexes indexes'
  cleared : CommittedCleared own later db after
  kept : TouchesWritable own blocks indexes count → CommittedKept own later db after
  damaged : ¬TouchesWritable own blocks indexes count →
    ∃ block i, own.Committed block ∧ (db.data block).word i ≠ 0 ∧ (after.data block).word i = 0
  room : own.room + count ≤ later.room + blocks.length

/-- A longer way down touches what a shorter one does. -/
theorem Touched.mono {length count less j : Nat} (fewer : less ≤ count)
    (touched : Touched length count j) : Touched length less j := by
  obtain ⟨i, low, rest⟩ := touched
  exact ⟨i, by omega, rest⟩

/-- If all that the longer way touches is writable, so is what the shorter one touches. -/
theorem TouchesWritable.mono {count less : Nat} (fewer : less ≤ count)
    (all : TouchesWritable own blocks indexes less) : TouchesWritable own blocks indexes count :=
  fun j index touched => all j index (touched.mono fewer)

/-- Shrinking by the data block at `count` touches one index block more. -/
theorem touchesWritable_succ {count : Nat} :
    TouchesWritable own blocks indexes count ↔
      TouchesWritable own blocks indexes (count + 1) ∧
      (512 ≤ count → count < blocks.length → ∀ index, indexes[(count - 512) / 1024]? = some index →
        own.writable index) := by
  constructor
  · intro all
    exact ⟨all.mono (Nat.le_succ _),
      fun high below index here => all _ index ⟨count, Nat.le_refl _, high, below, rfl⟩ here⟩
  · rintro ⟨more, last⟩ j index ⟨i, low, high, below, rfl⟩ here
    by_cases same : i = count
    · subst same
      exact last high below index here
    · exact more _ index ⟨i, by omega, high, below, rfl⟩ here

/-- A shrinking that has not begun. -/
theorem Shrunk.refl (held : HeldTable contract own db root limit blocks indexes) :
    Shrunk contract own own db db root limit blocks indexes blocks.length indexes := by
  have whole : blocks.take blocks.length = blocks := List.take_length
  have untouched : TouchesWritable own blocks indexes blocks.length := by
    rintro j index ⟨i, low, _, below, _⟩ _
    omega
  refine ⟨by rwa [whole], by rw [whole]; exact TableChange.refl _ _ _ _ _ _, IndexOrigin.refl _ _ _,
    (CommittedKept.refl _ _).cleared, fun _ => CommittedKept.refl _ _,
    fun touched => absurd untouched touched, Nat.le_refl _⟩

/-- One block more of a list. -/
theorem take_succ_eq {count : Nat} (below : count < blocks.length) :
    blocks.take (count + 1) = blocks.take count ++ [blocks[count]] :=
  (List.take_append_getElem below).symm

section ShrinkStep

variable {later last : Ownership} {after final : Db ρ} {count : Nat} {indexes' indexes'' : List Nat}

/-- The last data block is gone from the list kept so far. -/
theorem Shrunk.stays (block : Nat) (_ : block ∈ blocks) (member : block ∈ blocks.take count) :
    block ∈ blocks.take (count + 1) :=
  List.take_subset_take_left blocks (Nat.le_succ count) member

/-- One data block less, of the first 512. -/
theorem Shrunk.stepData {old : Nat}
    (shrunk : Shrunk contract own later db after root limit blocks indexes (count + 1) indexes')
    (low : count < 512) (removed : old ∈ blocks.take (count + 1))
    (held : HeldTable contract (later.freed old) final root limit (blocks.take count) indexes')
    (change : TableChange later (later.freed old) after final root limit (blocks.take (count + 1))
      indexes' (blocks.take count) indexes')
    (committed : CommittedKept later (later.freed old) after final) :
    Shrunk contract own (later.freed old) db final root limit blocks indexes count indexes' := by
  have same : TouchesWritable own blocks indexes count ↔
      TouchesWritable own blocks indexes (count + 1) := by
    rw [touchesWritable_succ]
    exact and_iff_left fun high => by omega
  refine ⟨held, shrunk.change.trans change shrunk.held.distinct held.distinct Shrunk.stays, ?_,
    shrunk.cleared.trans committed.cleared, fun all => (shrunk.kept (same.mp all)).trans committed,
    ?_, ?_⟩
  · intro j index here
    have notOld : index ≠ old := by
      rintro rfl
      exact (List.nodup_append.mp (List.nodup_cons.mp shrunk.held.distinct).2).2.2
        index removed index
        (List.mem_of_getElem? here) rfl
    rcases shrunk.origin j index here with ⟨before, writable⟩ | ⟨writable, touched, others⟩
    · exact .inl ⟨before, Iff.trans (and_iff_left notOld) writable⟩
    · exact .inr ⟨⟨writable, notOld⟩, touched.mono (Nat.le_succ _), others⟩
  · intro notAll
    obtain ⟨block, i, early, nonzero, zero⟩ := shrunk.damaged (fun all => notAll (same.mpr all))
    obtain ⟨still, _⟩ := shrunk.cleared block early
    exact ⟨block, i, early, nonzero, (committed.cleared block still).2 i zero⟩
  · have before := shrunk.room
    simp only [Ownership.freed]
    split <;> omega

/-- One data block less, of those behind index blocks. -/
theorem Shrunk.stepIndex {index : Nat}
    (start : HeldTable contract own db root limit blocks indexes)
    (shrunk : Shrunk contract own later db after root limit blocks indexes (count + 1) indexes')
    (high : 512 ≤ count) (below : count < blocks.length)
    (found : indexes'[(count - 512) / 1024]? = some index)
    (held : HeldTable contract last final root limit (blocks.take count) indexes'')
    (change : TableChange later last after final root limit (blocks.take (count + 1)) indexes'
      (blocks.take count) indexes'')
    (once : IndexShrunk later last after final index ((count - 512) % 1024))
    (origin : IndexOrigin later last (· = (count - 512) / 1024) indexes' indexes'')
    (room : later.room ≤ last.room + 1) :
    Shrunk contract own last db final root limit blocks indexes count indexes'' := by
  have origins := shrunk.origin _ _ found
  refine ⟨held, shrunk.change.trans change shrunk.held.distinct held.distinct Shrunk.stays,
    shrunk.origin.trans origin (fun j => Touched.mono (Nat.le_succ _)) ?_,
    shrunk.cleared.trans once.cleared, ?_, ?_, ?_⟩
  · rintro j rfl
    exact ⟨count, Nat.le_refl _, high, below, rfl⟩
  · intro all
    obtain ⟨before, now⟩ := touchesWritable_succ.mp all
    refine (shrunk.kept before).trans (once.kept ?_)
    rcases origins with ⟨same, writable⟩ | ⟨writable, _⟩
    · exact writable.mpr (now high below index same)
    · exact writable
  · intro notAll
    by_cases before : TouchesWritable own blocks indexes (count + 1)
    · -- the index block is the old one, so this round does the damage
      rcases origins with ⟨same, writable⟩ | ⟨_, touched, old, there, committed⟩
      · have unwritable : ¬own.writable index := by
          intro early
          refine notAll (touchesWritable_succ.mpr ⟨before, fun _ _ other there => ?_⟩)
          rw [same, Option.some.injEq] at there
          exact there ▸ early
        have committed : own.Committed index :=
          ⟨start.kept (List.mem_append_right _ (List.mem_of_getElem? same)), unwritable⟩
        obtain ⟨nonzero, zero⟩ :=
          once.damaged fun writableNow => unwritable (writable.mp writableNow)
        exact ⟨index, _, committed, fun early =>
          nonzero ((shrunk.cleared index committed).2 _ early), zero⟩
      · exact absurd (before _ old touched there) committed
    · obtain ⟨block, i, committed, nonzero, zero⟩ := shrunk.damaged before
      obtain ⟨still, _⟩ := shrunk.cleared block committed
      exact ⟨block, i, committed, nonzero, (once.cleared block still).2 i zero⟩
  · have := shrunk.room
    omega

end ShrinkStep

/-- A state in which the page table has shrunk to `count` data blocks. -/
def ShrunkTo (contract : BlockContract api) (own : Ownership) (db : Db ρ) (root limit : Nat)
    (blocks indexes : List Nat) (count : Nat) (after : Db ρ) : Prop :=
  ∃ later indexes', Shrunk contract own later db after root limit blocks indexes count indexes'

/-- The third loop of `page_resize`. -/
theorem shrinkIndexBlocks_loop (held : HeldTable contract own db root limit blocks indexes)
    (fewer : target ≤ blocks.length) (room : blocks.length - target ≤ own.room) :
    ∃ after, Code.whileLoop (fun db => ptNblocks db root > target && ptNblocks db root > levelOne)
        (shrinkIndexBlocks api root) 4294967296 db = .ok () after ∧
      ShrunkTo contract own db root limit blocks indexes
        (min blocks.length (max target 512)) after := by
  have bounded := held.table.length_lt
  apply Code.whileLoop_down (ShrunkTo contract own db root limit blocks indexes) blocks.length
  · rintro count state reached below ⟨later, indexes', shrunk⟩
    have spare := shrunk.room
    have counted := shrunk.held.table.count
    rw [List.length_take, Nat.min_eq_left (by omega)] at counted
    have before := shrunk.held
    rw [take_succ_eq below] at before
    have length : (blocks.take count).length = count := by
      rw [List.length_take]
      omega
    obtain ⟨index, last, after, indexes'', found, ran, heldAfter, change, once, origin, spent⟩ :=
      shrinkIndexBlocks_spec before (by omega) (by omega)
    rw [length] at found once origin
    rw [← take_succ_eq below] at change
    refine ⟨?_, after, ran, _, _,
      shrunk.stepIndex held (by omega) below found heldAfter change once origin spent⟩
    simp only [ptNblocks, nblocksWord, counted, levelOne, Bool.and_eq_true, decide_eq_true_eq]
    omega
  · rintro state ⟨later, indexes', shrunk⟩
    have counted := shrunk.held.table.count
    rw [List.length_take] at counted
    simp only [ptNblocks, nblocksWord, counted, levelOne, Bool.and_eq_false_iff,
      decide_eq_false_iff_not]
    omega
  · omega
  · omega
  · exact ⟨own, indexes, Shrunk.refl held⟩

/-- The last loop of `page_resize`. -/
theorem shrinkDataBlocks_loop (target : Nat) {start : Nat} {state : Db ρ}
    (shrunk : ShrunkTo contract own db root limit blocks indexes start state)
    (low : target < start → start ≤ 512) (fewer : target ≤ start) (within : start ≤ blocks.length) :
    ∃ after, Code.whileLoop (fun db => ptNblocks db root > target)
        (shrinkDataBlocks api root) 4294967296 state = .ok () after ∧
      ShrunkTo contract own db root limit blocks indexes target after := by
  apply Code.whileLoop_down (ShrunkTo contract own db root limit blocks indexes) start
  · rintro count state reached below ⟨later, indexes', shrunk⟩
    have inside : count < blocks.length := by omega
    have counted := shrunk.held.table.count
    rw [List.length_take, Nat.min_eq_left (by omega)] at counted
    have before := shrunk.held
    rw [take_succ_eq inside] at before
    have length : (blocks.take count).length = count := by
      rw [List.length_take]
      omega
    obtain ⟨after, ran, heldAfter, change, committed⟩ := shrinkDataBlocks_spec before (by omega)
    rw [← take_succ_eq inside] at change
    refine ⟨?_, after, ran, _, _, shrunk.stepData (by omega) ?_ heldAfter change committed⟩
    · simp only [ptNblocks, nblocksWord, counted, decide_eq_true_eq]
      omega
    · rw [take_succ_eq inside]
      exact List.mem_append_right _ List.mem_cons_self
  · rintro state ⟨later, indexes', shrunk⟩
    have counted := shrunk.held.table.count
    rw [List.length_take] at counted
    simp only [ptNblocks, nblocksWord, counted, decide_eq_false_iff_not]
    omega
  · exact fewer
  · by_cases strict : target < start
    · have := low strict
      omega
    · omega
  · exact shrunk

/-- `page_resize` to a size that is not larger. -/
theorem pageResize_shrink (held : HeldTable contract own db root limit blocks indexes)
    (fewer : target ≤ blocks.length) (room : blocks.length - target ≤ own.room) :
    ∃ after, pageResize api root target db = .ok () after ∧
      ShrunkTo contract own db root limit blocks indexes target after := by
  have counted := held.table.count
  obtain ⟨first, firstRan, firstShrunk⟩ := shrinkIndexBlocks_loop held fewer room
  obtain ⟨after, ran, shrunk⟩ :=
    shrinkDataBlocks_loop target firstShrunk (by omega) (by omega) (by omega)
  have count : ptNblocks db root = blocks.length := counted
  refine ⟨after, ?_, shrunk⟩
  unfold pageResize
  rw [Code.bind_ok (contract.modify_writable held.valid held.writable),
    Code.bind_ok (Code.whileLoop_skip _), Code.bind_ok (Code.whileLoop_skip _),
    Code.bind_ok firstRan,
    ran]
  · simp only [count, decide_eq_false_iff_not]
    omega
  · simp only [count, Bool.and_eq_false_iff, decide_eq_false_iff_not]
    omega

/-- What a call must leave for an abort to restore: the bytes of every committed
block. A table made of committed blocks then maps its indexes as before, in every
state with these bytes. -/
structure AbortSafe (own : Ownership) (db after : Db ρ) : Prop where
  bytes : ∀ block, own.Committed block → after.data block = db.data block
  table : ∀ root limit blocks indexes, PageTable db root limit blocks indexes →
    (∀ block ∈ root :: indexes, own.Committed block) →
    ∀ last : Db ρ, (∀ block, own.Committed block → last.data block = after.data block) →
      ∀ i block, blocks[i]? = some block → pageReadHostIndex last root i = (0, block)

/-- When the committed blocks have their bytes, an abort is safe. -/
theorem abortSafe_of_bytes {after : Db ρ}
    (bytes : ∀ block, own.Committed block → after.data block = db.data block) :
    AbortSafe own db after := by
  refine ⟨bytes, ?_⟩
  intro root limit blocks indexes table committed last same i block here
  have restored : ∀ block ∈ root :: indexes, last.data block = db.data block := by
    intro block member
    rw [same block (committed block member), bytes block (committed block member)]
  exact (table.congr (restored root (by simp))
    fun index member => restored index (by simp [member])).read here

/-- `page_resize` writes no committed block if and only if every index block that it
takes entries from is writable already. -/
theorem pageResize_abortSafe_iff (held : HeldTable contract own db root limit blocks indexes)
    (fits : target ≤ 512 + 1024 * limit)
    (room : 2 * (target - blocks.length) + (blocks.length - target) ≤ own.room) :
    (∃ after, pageResize api root target db = .ok () after ∧ AbortSafe own db after) ↔
      TouchesWritable own blocks indexes target := by
  by_cases more : blocks.length ≤ target
  · obtain ⟨after, ran, later, blocks', indexes', grown⟩ :=
      pageResize_grow held more fits (by omega)
    constructor
    · rintro _ j index ⟨i, low, _, below, _⟩ _
      omega
    · intro _
      exact ⟨after, ran, abortSafe_of_bytes fun block committed =>
        (grown.committed block committed).2⟩
  · obtain ⟨after, ran, later, indexes', shrunk⟩ :=
      pageResize_shrink held (show target ≤ blocks.length by omega) (by omega)
    constructor
    · rintro ⟨last, ranLast, safe⟩
      rw [ran] at ranLast
      cases ranLast
      by_contra damages
      obtain ⟨block, i, committed, nonzero, zero⟩ := shrunk.damaged damages
      rw [safe.bytes block committed] at zero
      exact nonzero zero
    · intro all
      exact ⟨after, ran,
        abortSafe_of_bytes fun block committed => (shrunk.kept all block committed).2⟩

/-- Growing past the root's own entries, over the allocator of the unit tests. -/
theorem pageResize_abortSafe_iff_mock :
    ∃ after, pageResize mockApi 1 514 (mockTable 1026) = .ok () after ∧
      AbortSafe (mockOwnership [1, 2] 1026) (mockTable 1026) after :=
  (pageResize_abortSafe_iff (mockTable_held (by decide)) (by decide) (by decide)).mpr
    fun _ index _ here => by simp at here

/-- A database between transactions whose block 4 is the root of a page table: 513
data blocks from 5 on, of which the last is in index block 518, and one free block. -/
def committedTable : EdbDb where
  data := fun block =>
    if block = 1 then ((Image.zero.setWord 0 519).setWord lengthWord 1).setByte itemSizeByte 4
    else if block = 4 then
      Image.setWord (Image.setWord (fun offset =>
        if offset < 2048 then Image.wordByte (5 + offset / 4) (offset % 4) else 0) 512 518) 1023 513
    else if block = 518 then Image.zero.setWord 0 517
    else Image.zero
  ctl := { closedEdb grantingOs with
    mapped := true, protWrite := true, filesize := 2129920, nblocks := 520,
      freelist := 1, objlist := 3 }

/-- Shrinking that table by one block and aborting: the committed table no longer
maps its last index. -/
theorem pageResize_damages_committed :
    ∃ after, (edbTxnBegin 3 >>= fun _ => edbModifyBlock 3 4 >>= fun root =>
        pageResize (edbApi 3) root 512 >>= fun _ => edbTxnAbort 3) committedTable = .ok () after ∧
      pageReadHostIndex committedTable 4 512 = (0, 517) ∧
      pageReadHostIndex after 4 512 = (0, 0) := by
  have run : ((edbTxnBegin 3 >>= fun _ => edbModifyBlock 3 4 >>= fun root =>
      pageResize (edbApi 3) root 512 >>= fun _ => edbTxnAbort 3) committedTable).passes
      (fun _ after => pageReadHostIndex committedTable 4 512 == (0, 517) &&
        pageReadHostIndex after 4 512 == (0, 0)) = true := by
    decide +kernel
  obtain ⟨_, after, ran, read⟩ := Outcome.of_passes run
  simp only [Bool.and_eq_true, beq_iff_eq] at read
  exact ⟨after, ran, read.1, read.2⟩

end EverDb
