import EverDb.Foundation.Code
import EverDb.Foundation.Image

/-!
# The database handle and the block interface

`Db` is the part of `edb` that the block-structured code touches: the mapped
blocks (`db->data`) and everything else (`ctl`), whose type is a parameter. The
page tables, the arrays and the B+ tree reach the allocator only through
`edb_allocate_block`, `edb_modify_block` and `edb_free_block`; `BlockApi` is
that interface, so the same translation runs over the transaction layer and
over any other allocator.

A block is addressed by its number. `EverDb.Io.Addressing` relates this to the
pointer arithmetic of the macros `BLOCK`, `BTREE` and `PAGE_TABLE`.
-/

namespace EverDb

open Foundation

/-- `BLOCK_BITS`. -/
abbrev blockBits : Nat := 12

/-- `BLOCK_SIZE`. -/
abbrev blockSize : Nat := 4096

/-- `EDB_FREELIST_PRIMARY`. -/
abbrev edbFreelistPrimary : Nat := 1

/-- `EDB_FREELIST_SECONDARY`. -/
abbrev edbFreelistSecondary : Nat := 2

/-- `EDB_OBJLIST`. -/
abbrev edbObjlist : Nat := 3

/-- `EDB_USER_DATA`. -/
abbrev edbUserData : Nat := 4

/-- `EDB_ERROR_DATA_CORRUPT`. -/
abbrev edbErrorDataCorrupt : Int := 1901

/-- Reduce a result to 32 bits, as every `u32` operation does. A `u32` counter
that moves once per round is back where it began after `2 ^ 32` rounds, so that
is the round limit of the loops below. -/
def u32 (value : Nat) : Nat := value % 4294967296

/-- `u32` subtraction. -/
def sub32 (left right : Nat) : Nat := (left + 4294967296 - right) % 4294967296

/-- A value that fits into 32 bits is not changed. -/
theorem u32_of_lt {value : Nat} (bounded : value < 4294967296) : u32 value = value :=
  Nat.mod_eq_of_lt bounded

/-- A reduced value fits into 32 bits. -/
theorem u32_lt (value : Nat) : u32 value < 4294967296 := Nat.mod_lt _ (by decide)

/-- A difference that is not negative does not wrap. -/
theorem sub32_of_le {left right : Nat} (ordered : right ≤ left) (bounded : left < 4294967296) :
    sub32 left right = left - right := by
  unfold sub32
  omega

/-- The mapped blocks together with the rest of the database handle. -/
structure Db (ρ : Type) where
  data : Nat → Image
  ctl : ρ

namespace Db

variable {ρ : Type}

/-- Replace the bytes of one block. -/
def write (db : Db ρ) (block : Nat) (image : Image) : Db ρ :=
  { db with data := fun other => if other = block then image else db.data other }

/-- `((u32*) BLOCK(db, block))[index] = value`. -/
def setWord (db : Db ρ) (block index value : Nat) : Db ρ :=
  db.write block ((db.data block).setWord index value)

/-- A block has the image that was written. -/
@[simp] theorem write_data_self (db : Db ρ) (block : Nat) (image : Image) :
    (db.write block image).data block = image := by simp [write]

/-- Writing a block leaves the others. -/
theorem write_data_of_ne {db : Db ρ} {block other : Nat} {image : Image} (apart : other ≠ block) :
    (db.write block image).data other = db.data other := by simp [write, apart]

/-- The last of two writes to one block stands. -/
@[simp] theorem write_write (db : Db ρ) (block : Nat) (first last : Image) :
    (db.write block first).write block last = db.write block last := by
  simp only [write]
  congr 1
  ext other
  split <;> rfl

/-- Writing back what is there. -/
theorem write_same (db : Db ρ) (block : Nat) : db.write block (db.data block) = db := by
  obtain ⟨data, ctl⟩ := db
  simp only [write, mk.injEq, and_true]
  ext other
  split
  · rename_i same
    rw [same]
  · rfl

/-- Writing a block leaves the control record. -/
@[simp] theorem write_ctl (db : Db ρ) (block : Nat) (image : Image) :
    (db.write block image).ctl = db.ctl := rfl

/-- Writing a word leaves the control record. -/
@[simp] theorem setWord_ctl (db : Db ρ) (block index value : Nat) :
    (db.setWord block index value).ctl = db.ctl := rfl

/-- Writing a word of a block changes its image there. -/
@[simp] theorem setWord_data_self (db : Db ρ) (block index value : Nat) :
    (db.setWord block index value).data block = (db.data block).setWord index value := by
  simp [setWord]

/-- Writing a word of a block leaves the other blocks. -/
theorem setWord_data_of_ne {db : Db ρ} {block other index value : Nat} (apart : other ≠ block) :
    (db.setWord block index value).data other = db.data other := write_data_of_ne apart

end Db

/-- The block functions `edb.h` declares, as the modules above them see them:
`edb_allocate_block` yields the new number, `edb_modify_block` the number to use
from now on. -/
structure BlockApi (σ : Type) where
  allocate : Code σ Nat
  modify : Nat → Code σ Nat
  free : Nat → Code σ Unit

/-- Read a word of a block. -/
def load {ρ : Type} (block index : Nat) : Code (Db ρ) Nat :=
  .gets fun db => (db.data block).word index

/-- Write a word of a block. -/
def store {ρ : Type} (block index value : Nat) : Code (Db ρ) Unit :=
  .update fun db => db.setWord block index value

/-- Reading a word. -/
@[simp] theorem load_run {ρ : Type} (block index : Nat) (db : Db ρ) :
    load block index db = .ok ((db.data block).word index) db := rfl

/-- Reading a word before the rest of a call. -/
@[simp] theorem load_bind {ρ α : Type} (block index : Nat)
    (next : Nat → Code (Db ρ) α) (db : Db ρ) :
    (load block index >>= next) db = next ((db.data block).word index) db := rfl

/-- Writing a word. -/
@[simp] theorem store_run {ρ : Type} (block index value : Nat) (db : Db ρ) :
    store block index value db = .ok () (db.setWord block index value) := rfl

/-- Writing a word before the rest of a call. -/
@[simp] theorem store_bind {ρ α : Type} (block index value : Nat) (next : Unit → Code (Db ρ) α)
    (db : Db ρ) :
    (store block index value >>= next) db = next () (db.setWord block index value) := rfl

/-- `memcpy(BLOCK(db, target), BLOCK(db, source), BLOCK_SIZE)`. -/
def copyBlock {ρ : Type} (target source : Nat) : Code (Db ρ) Unit :=
  .update fun db => db.write target (db.data source)

/-- C division: dividing by zero traps. -/
def divide {σ : Type} (left right : Nat) : Code σ Nat :=
  if right = 0 then .diverge else .ret (left / right)

end EverDb
