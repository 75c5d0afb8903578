import EverDb.Core

/-!
# Block addresses

The macros that turn a block number into an address, as offsets from `db->data`.
Each multiplies a `u32` by the `int` constant `BLOCK_SIZE`, so the product is a
`u32` before the pointer addition widens it.
-/

namespace EverDb

/-- `BLOCK`. -/
def blockOffset (index : Nat) : Nat := u32 (index * blockSize)

/-- `BTREE`. -/
def btreeOffset (root : Nat) : Nat := u32 (blockSize * root)

/-- `PAGE_TABLE`. -/
def pageTableOffset (page : Nat) : Nat := u32 (blockSize * page)

/-- `INDEX_PAGE`. -/
def indexPageOffset (page : Nat) : Nat := u32 (blockSize * page)

/-- `DATA_PAGE`. -/
def dataPageOffset (page : Nat) : Nat := u32 (blockSize * page)

/-- `PAGE_TABLE_ARRAY`. -/
def pageTableArrayOffset (page : Nat) : Nat := u32 (blockSize * page)

/-- The macros that address a block. -/
inductive BlockMacro where
  | block
  | btree
  | pageTable
  | indexPage
  | dataPage
  | pageTableArray
deriving DecidableEq, Repr

namespace BlockMacro

/-- The offset a macro computes. -/
def offset : BlockMacro → Nat → Nat
  | block => blockOffset
  | btree => btreeOffset
  | pageTable => pageTableOffset
  | indexPage => indexPageOffset
  | dataPage => dataPageOffset
  | pageTableArray => pageTableArrayOffset

/-- A byte of `db->data` lies in the block that a macro addresses. -/
def Covers (name : BlockMacro) (index byte : Nat) : Prop :=
  name.offset index ≤ byte ∧ byte < name.offset index + blockSize

/-- All the macros compute one offset. -/
theorem offset_eq (name : BlockMacro) (index : Nat) : name.offset index = u32 (index * 4096) := by
  cases name <;> simp [offset, blockOffset, btreeOffset, pageTableOffset, indexPageOffset,
    dataPageOffset, pageTableArrayOffset, Nat.mul_comm]

/-- Below `2 ^ 20` blocks the offset is exact. -/
theorem offset_of_lt (name : BlockMacro) {index : Nat} (inside : index < 1048576) :
    name.offset index = index * 4096 := by
  rw [offset_eq, u32_of_lt (by omega)]

end BlockMacro

/-- Blocks below `nblocks` are addressed apart from one another and inside the
file. -/
def AddressedApart (nblocks filesize : Nat) : Prop :=
  ∀ (left right : BlockMacro) (i j : Nat), i < j → j < nblocks →
    (∀ byte, left.Covers i byte → ¬right.Covers j byte) ∧
    (∀ byte, left.Covers i byte → byte < filesize) ∧
    ∀ byte, right.Covers j byte → byte < filesize

/-- Up to `2 ^ 20` blocks the addresses are apart. -/
theorem addressedApart_of_le {nblocks : Nat} (small : nblocks ≤ 1048576) :
    AddressedApart nblocks (nblocks * 4096) := by
  intro left right i j ordered inside
  have first := left.offset_of_lt (show i < 1048576 by omega)
  have second := right.offset_of_lt (show j < 1048576 by omega)
  simp only [BlockMacro.Covers, first, second, blockSize]
  refine ⟨?_, ?_, ?_⟩ <;> (intro byte covered; omega)

end EverDb
