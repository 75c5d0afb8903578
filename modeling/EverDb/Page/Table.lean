import EverDb.Block.Mock
import EverDb.Page.Model
import Mathlib.Data.List.Nodup

/-!
# Page tables as lists of blocks

`PageTable` reads a root as the list of its data blocks together with the list of
its index blocks, and `Held` adds that the blocks are distinct and the client's.
-/

namespace EverDb

open Foundation

variable {ρ : Type}

/-- The number of index blocks that `count` data blocks need. -/
def indexCount (count : Nat) : Nat := (count - 512 + 1023) / 1024

/-- A root maps the indexes below `blocks.length`. The first `limit` words of
`index_blocks` are the table's, what lies behind them is not. -/
structure PageTable (db : Db ρ) (root limit : Nat) (blocks indexes : List Nat) : Prop where
  count : (db.data root).word 1023 = blocks.length
  limited : limit ≤ 511
  fits : blocks.length ≤ 512 + 1024 * limit
  spans : indexes.length = indexCount blocks.length
  direct : ∀ i block, i < 512 → blocks[i]? = some block → (db.data root).word i = block
  index : ∀ j block, indexes[j]? = some block → (db.data root).word (512 + j) = block
  entry : ∀ i block index, 512 ≤ i → blocks[i]? = some block →
    indexes[(i - 512) / 1024]? = some index → (db.data index).word ((i - 512) % 1024) = block
  clear : ∀ j, indexes.length ≤ j → j < limit → (db.data root).word (512 + j) = 0

theorem index0_eq {index : Nat} (low : 512 ≤ index) (bounded : index < 4294967296) :
    index0 index = (index - 512) / 1024 := by
  simp only [index0, levelOne, indexBits]
  rw [sub32_of_le low bounded, Nat.shiftRight_eq_div_pow]

theorem index1_eq {index : Nat} (low : 512 ≤ index) (bounded : index < 4294967296) :
    index1 index = (index - 512) % 1024 := by
  simp only [index1, levelOne, indexSize]
  rw [sub32_of_le low bounded]

/-- Every index past the first 512 has its index block. -/
theorem div_lt_indexCount {count i : Nat} (low : 512 ≤ i) (inside : i < count) :
    (i - 512) / 1024 < indexCount count := by
  unfold indexCount
  omega

namespace PageTable

variable {db : Db ρ} {root limit : Nat} {blocks indexes : List Nat} {i block : Nat}

theorem length_lt (table : PageTable db root limit blocks indexes) :
    blocks.length < 4294967296 := by
  have := table.fits
  have := table.limited
  omega

/-- The index block of an index. -/
theorem exists_index (table : PageTable db root limit blocks indexes) (low : 512 ≤ i)
    (inside : i < blocks.length) : ∃ index, indexes[(i - 512) / 1024]? = some index := by
  have within : (i - 512) / 1024 < indexes.length := by
    rw [table.spans]
    exact div_lt_indexCount low inside
  exact ⟨_, List.getElem?_eq_getElem within⟩

/-- `page_read_host_index` reads the list. -/
theorem read (table : PageTable db root limit blocks indexes) (held : blocks[i]? = some block) :
    pageReadHostIndex db root i = (0, block) := by
  obtain ⟨inside, _⟩ := List.getElem?_eq_some_iff.mp held
  have bounded := table.length_lt
  have present : ¬i ≥ ptNblocks db root := by
    rw [ptNblocks, nblocksWord, table.count]
    omega
  have nonempty : ptNblocks db root ≠ 0 := by omega
  simp only [pageReadHostIndex, present, nonempty, if_false]
  by_cases low : i < 512
  · rw [if_pos low, table.direct i block low held]
  · obtain ⟨index, found⟩ := table.exists_index (by omega) inside
    rw [if_neg low, index0_eq (by omega) (by omega), index1_eq (by omega) (by omega), indexWord,
      levelOne, table.index _ _ found, table.entry i block index (by omega) held found]

/-- A table reads the same in every state with the same root and index blocks. -/
theorem congr (table : PageTable db root limit blocks indexes) {after : Db ρ}
    (sameRoot : after.data root = db.data root)
    (sameIndexes : ∀ index ∈ indexes, after.data index = db.data index) :
    PageTable after root limit blocks indexes where
  count := by rw [sameRoot]; exact table.count
  limited := table.limited
  fits := table.fits
  spans := table.spans
  direct := by rw [sameRoot]; exact table.direct
  index := by rw [sameRoot]; exact table.index
  entry := by
    intro i block index low held found
    rw [sameIndexes index (List.mem_of_getElem? found)]
    exact table.entry i block index low held found
  clear := by rw [sameRoot]; exact table.clear

end PageTable

/-- A page table in an open transaction: its root is writable, its blocks are
distinct and the client's. -/
structure HeldTable {api : BlockApi (Db ρ)} (contract : BlockContract api) (own : Ownership)
    (db : Db ρ) (root limit : Nat) (blocks indexes : List Nat) : Prop where
  valid : contract.Valid own db
  table : PageTable db root limit blocks indexes
  writable : own.writable root
  live : ∀ block ∈ blocks ++ indexes, own.live block
  distinct : (root :: (blocks ++ indexes)).Nodup

/-- A table that is short enough may use fewer words of `index_blocks`. -/
theorem HeldTable.narrow {api : BlockApi (Db ρ)} {contract : BlockContract api} {own : Ownership}
    {db : Db ρ} {root limit less : Nat} {blocks indexes : List Nat}
    (held : HeldTable contract own db root limit blocks indexes) (fewer : less ≤ limit)
    (fits : blocks.length ≤ 512 + 1024 * less) :
    HeldTable contract own db root less blocks indexes := by
  have table := held.table
  refine ⟨held.valid,
    ⟨table.count, Nat.le_trans fewer table.limited, fits, table.spans, table.direct,
    table.index, table.entry, ?_⟩, held.writable, held.live, held.distinct⟩
  exact fun j above below => table.clear j above (Nat.lt_of_lt_of_le below fewer)

/-- Writing to a data block leaves the table alone. -/
theorem HeldTable.write_block {api : BlockApi (Db ρ)} {contract : BlockContract api}
    {own : Ownership} {db : Db ρ} {root limit block : Nat} {blocks indexes : List Nat}
    (held : HeldTable contract own db root limit blocks indexes) (member : block ∈ blocks)
    (image : Image) : HeldTable contract own (db.write block image) root limit blocks indexes := by
  obtain ⟨notRoot, apart⟩ := List.nodup_cons.mp held.distinct
  refine ⟨contract.write held.valid (held.live block (by simp [member])) _, ?_, held.writable,
    held.live, held.distinct⟩
  refine held.table.congr (Db.write_data_of_ne ?_) fun index inIndexes => Db.write_data_of_ne ?_
  · rintro rfl
    exact notRoot (by simp [member])
  · rintro rfl
    exact (List.nodup_append.mp apart).2.2 index member index inIndexes rfl

/-- A root with one data block, over the allocator of the unit tests. -/
def mockTable (free : Nat) : Db (List Nat) where
  data := fun block => if block = 1 then (Image.zero.setWord 0 2).setWord 1023 1 else Image.zero
  ctl := List.range' 3 free

theorem mockTable_held {free : Nat} (bounded : free < 4294967293) :
    HeldTable mockContract (mockOwnership [1, 2] free) (mockTable free) 1 511 [2] [] := by
  have shape : [1, 2] ++ List.range' 3 free = List.range' 1 (2 + free) := by
    rw [← List.range'_append_1]
    rfl
  have valid : MockValid (mockOwnership [1, 2] (List.range' 3 free).length) (mockTable free) := by
    refine mockValid_of_disjoint [1, 2] (List.range' 3 free) _ ?_ ?_
    · rw [shape]
      exact List.nodup_range'
    · intro block member
      rw [shape, List.mem_range'_1] at member
      omega
  rw [List.length_range'] at valid
  refine ⟨valid, ?_, by simp [mockOwnership], by simp [mockOwnership], by decide⟩
  refine ⟨rfl, by decide, by decide, by decide, ?_, by simp, by simp, ?_⟩
  · intro i block low held
    cases i with
    | zero =>
        cases held
        rfl
    | succ i => simp at held
  · intro j _ bounded
    have other : 512 + j ≠ 0 ∧ 512 + j ≠ 1023 := by omega
    simp [mockTable, Image.word_setWord_of_ne other.1, Image.word_setWord_of_ne other.2]

end EverDb
