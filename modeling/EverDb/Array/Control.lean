import EverDb.Array.Model
import EverDb.Foundation.Invariant

/-!
# The control record under arrays

The page tables and the arrays write blocks, and they reach the rest of the database
handle only through the block functions. So whatever the block functions keep of the
control record, `array_push`, `array_pop` and the rest keep.
-/

namespace EverDb

open Foundation

variable {ρ α β : Type}

/-- A call keeps a property of the control record. -/
abbrev KeepsCtl (Inv : ρ → Prop) (call : Code (Db ρ) α) : Prop :=
  Code.Keeps (fun db => Inv db.ctl) call

/-- The block functions keep a property of the control record. -/
structure BlockApi.KeepsCtl (Inv : ρ → Prop) (api : BlockApi (Db ρ)) : Prop where
  allocate : EverDb.KeepsCtl Inv api.allocate
  modify : ∀ block, EverDb.KeepsCtl Inv (api.modify block)
  free : ∀ block, EverDb.KeepsCtl Inv (api.free block)

variable {Inv : ρ → Prop} {api : BlockApi (Db ρ)}

namespace Foundation.Code.Keeps

/-- Reading a word changes nothing. -/
theorem load (block index : Nat) : KeepsCtl Inv (EverDb.load block index) := .gets _

/-- A store into a block does not reach the control record. -/
theorem store (block index value : Nat) : KeepsCtl Inv (EverDb.store block index value) :=
  ⟨fun _ held => held⟩

/-- A copy between two blocks does not reach the control record. -/
theorem copyBlock (target source : Nat) : KeepsCtl Inv (EverDb.copyBlock target source) :=
  ⟨fun _ held => held⟩

/-- A division has no effect, and a division by zero has no result. -/
theorem divide (left right : Nat) : KeepsCtl Inv (EverDb.divide left right) := by
  unfold EverDb.divide
  exact .ite .diverge (.ret _)

/-- What `abort()` ends needs no record; what passes it comes from the call. -/
theorem orAbort {call : Code (Db ρ) α} (keeps : KeepsCtl Inv call) :
    KeepsCtl Inv (EverDb.orAbort call) := by
  constructor
  intro db held
  have kept := keeps.run db held
  unfold EverDb.orAbort
  cases ran : call db with
  | ok value after =>
      rw [ran] at kept
      exact kept
  | error code after => trivial
  | stuck => trivial

end Foundation.Code.Keeps

namespace BlockApi.KeepsCtl

/-! ## Page tables -/

/-- `page_write_host_index` reaches the record through `edb_modify_block` alone. -/
theorem pageWriteHostIndex (keeps : api.KeepsCtl Inv) (root index : Nat) :
    EverDb.KeepsCtl Inv (EverDb.pageWriteHostIndex api root index) := by
  unfold EverDb.pageWriteHostIndex
  refine .bind (.load _ _) fun nblocks => .ite (.fail _) (.ite (keeps.modify root) (.ite ?_ ?_))
  · exact .bind (keeps.modify root) fun root => .bind (.load _ _) keeps.modify
  · exact .bind (keeps.modify root) fun root => .bind (.load _ _) fun indexBlock =>
      .bind (keeps.modify indexBlock) fun indexBlock => .bind (.load _ _) keeps.modify

/-- The body of the loop of `page_resize` that adds data blocks. -/
theorem growDataBlocks (keeps : api.KeepsCtl Inv) (root : Nat) :
    EverDb.KeepsCtl Inv (EverDb.growDataBlocks api root) :=
  .bind keeps.allocate fun _ => .bind (.load _ _) fun _ =>
    .bind (.store _ _ _) fun _ => .store _ _ _

/-- The body of the loop that adds blocks behind an index block. -/
theorem growIndexBlocks (keeps : api.KeepsCtl Inv) (root : Nat) :
    EverDb.KeepsCtl Inv (EverDb.growIndexBlocks api root) :=
  .bind (.load _ _) fun _ => .bind (.load _ _) fun indexBlock =>
    .bind (.ite keeps.allocate (keeps.modify indexBlock)) fun _ =>
    .bind (.store _ _ _) fun _ => .bind keeps.allocate fun _ =>
    .bind (.store _ _ _) fun _ => .bind (.load _ _) fun _ => .store _ _ _

/-- Freeing an index block, or keeping it and making it writable. -/
theorem closeIndexBlock (keeps : api.KeepsCtl Inv) (indexBlock dataIndex : Nat) :
    EverDb.KeepsCtl Inv (EverDb.closeIndexBlock api indexBlock dataIndex) :=
  .ite (.bind (keeps.free indexBlock) fun _ => .pure 0) (keeps.modify indexBlock)

/-- The body of the loop that gives up blocks behind an index block. -/
theorem shrinkIndexBlocks (keeps : api.KeepsCtl Inv) (root : Nat) :
    EverDb.KeepsCtl Inv (EverDb.shrinkIndexBlocks api root) := by
  unfold EverDb.shrinkIndexBlocks
  exact .bind (.load _ _) fun nblocks => .bind (.load _ _) fun indexBlock =>
    .bind (.load _ _) fun dataBlock =>
    .bind (keeps.free dataBlock) fun _ => .bind (.store _ _ _) fun _ =>
      .bind (.load _ _) fun nblocks =>
    .bind (keeps.closeIndexBlock _ _) fun indexBlock => .bind (.store _ _ _) fun _ =>
    .bind (.load _ _) fun nblocks => .store _ _ _

/-- The body of the loop that gives up data blocks. -/
theorem shrinkDataBlocks (keeps : api.KeepsCtl Inv) (root : Nat) :
    EverDb.KeepsCtl Inv (EverDb.shrinkDataBlocks api root) :=
  .bind (.load _ _) fun _ => .bind (.load _ _) fun dataBlock =>
    .bind (keeps.free dataBlock) fun _ =>
    .bind (.load _ _) fun _ => .bind (.store _ _ _) fun _ => .store _ _ _

/-- `page_resize`: one `edb_modify_block` and the four loops. -/
theorem pageResize (keeps : api.KeepsCtl Inv) (root nblocks : Nat) :
    EverDb.KeepsCtl Inv (EverDb.pageResize api root nblocks) :=
  .bind (keeps.modify root) fun root =>
    .bind (.whileLoop (keeps.growDataBlocks root) _) fun _ =>
    .bind (.whileLoop (keeps.growIndexBlocks root) _) fun _ =>
    .bind (.whileLoop (keeps.shrinkIndexBlocks root) _) fun _ =>
      .whileLoop (keeps.shrinkDataBlocks root) _

/-! ## Arrays -/

/-- `array_capacity` only reads. -/
theorem arrayCapacity (root : Nat) : EverDb.KeepsCtl Inv (EverDb.arrayCapacity root) :=
  .bind (.load _ _) fun _ => .bind (.gets _) fun _ =>
    .ite (.divide _ _) (.bind (.divide _ _) fun _ => .pure _)

/-- The end of `array_resize` writes the length, if anything. -/
theorem truncateLength (root capacity : Nat) :
    EverDb.KeepsCtl Inv (EverDb.truncateLength root capacity) :=
  .bind (.load _ _) fun _ => .ite (.store _ _ _) (.pure ())

/-- Moving the elements from the first page into the root. -/
theorem arrayMakeSmall (keeps : api.KeepsCtl Inv) (root smallCapacity : Nat) :
    EverDb.KeepsCtl Inv (EverDb.arrayMakeSmall api root smallCapacity) :=
  .bind (keeps.pageWriteHostIndex root 0) fun _ => .bind (.gets _) fun _ =>
    .bind (keeps.pageResize root 0) fun _ => .update fun _ held => held

/-- Moving the elements from the root into a first page. -/
theorem arrayMakePaged (keeps : api.KeepsCtl Inv) (root smallCapacity nblocks : Nat) :
    EverDb.KeepsCtl Inv (EverDb.arrayMakePaged api root smallCapacity nblocks) :=
  .bind (.gets _) fun _ => .bind (.update fun _ held => held) fun _ =>
    .bind (keeps.pageResize root nblocks) fun _ => .bind (keeps.pageWriteHostIndex root 0) fun _ =>
    .update fun _ held => held

/-- The paged branch of `array_resize`. -/
theorem arrayRepage (keeps : api.KeepsCtl Inv) (root smallCapacity nblocks : Nat) :
    EverDb.KeepsCtl Inv (EverDb.arrayRepage api root smallCapacity nblocks) :=
  .bind (.load _ _) fun _ =>
    .ite (.pure ()) (.ite (keeps.arrayMakePaged _ _ _) (keeps.pageResize root nblocks))

/-- `array_resize`, in each of its branches. -/
theorem arrayResize (keeps : api.KeepsCtl Inv) (root capacity : Nat) :
    EverDb.KeepsCtl Inv (EverDb.arrayResize api root capacity) := by
  refine .bind (arrayCapacity root) fun currentCapacity =>
    .ite (.pure ()) (.bind (.gets _) fun itemSize =>
    .bind (.divide _ _) fun smallCapacity => .bind (.load _ _) fun current => .ite ?_ ?_)
  · exact .ite (.bind (keeps.arrayMakeSmall root smallCapacity) fun _ =>
      truncateLength root smallCapacity)
      (truncateLength root smallCapacity)
  · exact .bind (.divide _ _) fun itemsPerBlock =>
      .bind (keeps.arrayRepage root smallCapacity _) fun _ =>
      truncateLength root _

/-- `array_data` makes the page of an element writable. -/
theorem arrayData (keeps : api.KeepsCtl Inv) (root index : Nat) :
    EverDb.KeepsCtl Inv (EverDb.arrayData api root index) :=
  .bind (.load _ _) fun _ => .ite (.pure _) (.bind (.load _ _) fun _ => .bind (.gets _) fun _ =>
    .ite (.pure _) (.bind (.divide _ _) fun _ =>
      .bind (.orAbort (keeps.pageWriteHostIndex root _)) fun _ => .bind (.gets _) fun _ => .pure _))

/-- `array_get`, whether it finds the element or not. -/
theorem arrayGet (keeps : api.KeepsCtl Inv) (root index : Nat) :
    EverDb.KeepsCtl Inv (EverDb.arrayGet api root index) := by
  refine .bind (keeps.arrayData root index) fun found => ?_
  cases found with
  | none => exact .fail _
  | some element => exact .gets _

/-- `array_set`, whether it finds the element or not. -/
theorem arraySet (keeps : api.KeepsCtl Inv) (root index : Nat) (buffer : Image) :
    EverDb.KeepsCtl Inv (EverDb.arraySet api root index buffer) := by
  refine .bind (keeps.arrayData root index) fun found => ?_
  cases found with
  | none => exact .fail _
  | some element => exact .update fun _ held => held

/-- `array_push`, with and without growing first. -/
theorem arrayPush (keeps : api.KeepsCtl Inv) (root : Nat) (buffer : Image) :
    EverDb.KeepsCtl Inv (EverDb.arrayPush api root buffer) := by
  have push : EverDb.KeepsCtl Inv (do
      let length ← EverDb.load root lengthWord
      EverDb.store root lengthWord (u32 (length + 1))
      let length ← EverDb.load root lengthWord
      EverDb.arraySet api root (sub32 length 1) buffer : Code (Db ρ) Unit) :=
    .bind (.load _ _) fun length => .bind (.store _ _ _) fun _ => .bind (.load _ _) fun length =>
      keeps.arraySet root _ buffer
  unfold EverDb.arrayPush
  refine .bind (.load _ _) fun length => .bind (arrayCapacity root) fun capacity => ?_
  exact .ite (.bind (keeps.arrayResize root _) fun _ => push) push

/-- `array_pop` keeps what `array_get` keeps. -/
theorem arrayPop (keeps : api.KeepsCtl Inv) (root : Nat) :
    EverDb.KeepsCtl Inv (EverDb.arrayPop api root) :=
  .bind (.load _ _) fun _ => .bind (keeps.arrayGet root _) fun element => .bind (.load _ _) fun _ =>
    .bind (.store _ _ _) fun _ => .pure element

end BlockApi.KeepsCtl

end EverDb
