import EverDb.Foundation.Relocation
import EverDb.Page.Model

/-!
# Page tables through pointers

The functions of `page.c` with the pointers they keep. `PAGE_TABLE(db, root)` and
`BLOCK(db, page)` are computed from `db->data`, so a pointer is the base that was read
when it was computed; `pt->nblocks` is an access from that base. Any call of a block
function may move the mapping.
-/

namespace EverDb.Pointer

open Foundation

variable {ρ : Type}

/-- `page_write_host_index`. -/
def pageWriteHostIndex (api : BlockApi (Db ρ)) (root index : Nat) : Code (Mapped (Db ρ)) Nat := do
  let pt ← .here
  let nblocks ← .access pt (load root nblocksWord)
  if index ≥ nblocks then .fail edbErrPageOutOfBounds
  else if nblocks = 0 then .relocating (api.modify root)
  else if index < levelOne then do
    let root ← .relocating (api.modify root)
    let pt ← .here
    let block ← .access pt (load root index)
    .relocating (api.modify block)
  else do
    let root ← .relocating (api.modify root)
    let pt ← .here
    let indexBlock ← .access pt (load root (indexWord (index0 index)))
    let indexBlock ← .relocating (api.modify indexBlock)
    let ip ← .here
    let block ← .access ip (load indexBlock (index1 index))
    .relocating (api.modify block)

/-- One round of the loop that grows `data_blocks`; it leaves a new `pt`. -/
def growDataBlocks (api : BlockApi (Db ρ)) (root : Nat) : Code (Mapped (Db ρ)) Nat := do
  let newBlock ← .relocating api.allocate
  let pt ← .here
  let nblocks ← .access pt (load root nblocksWord)
  .access pt (store root nblocksWord (u32 (nblocks + 1)))
  .access pt (store root nblocks newBlock)
  pure pt

/-- One round of the loop that grows `index_blocks`. -/
def growIndexBlocks (api : BlockApi (Db ρ)) (root pt : Nat) : Code (Mapped (Db ρ)) Nat := do
  let nblocks ← .access pt (load root nblocksWord)
  let indexIndex := index0 nblocks
  let dataIndex := index1 nblocks
  let indexBlock ← .access pt (load root (indexWord indexIndex))
  let indexBlock ← .relocating (openIndexBlock api indexBlock)
  let pt ← .here
  .access pt (store root (indexWord indexIndex) indexBlock)
  let newBlock ← .relocating api.allocate
  let pt ← .here
  -- `ip` is computed together with `pt`
  .access pt (store indexBlock dataIndex newBlock)
  let nblocks ← .access pt (load root nblocksWord)
  .access pt (store root nblocksWord (u32 (nblocks + 1)))
  pure pt

/-- One round of the loop that shrinks `index_blocks`. -/
def shrinkIndexBlocks (api : BlockApi (Db ρ)) (root pt : Nat) : Code (Mapped (Db ρ)) Nat := do
  let nblocks ← .access pt (load root nblocksWord)
  let indexIndex := index0 (sub32 nblocks 1)
  let dataIndex := index1 (sub32 nblocks 1)
  let indexBlock ← .access pt (load root (indexWord indexIndex))
  let ip ← .here
  let dataBlock ← .access ip (load indexBlock dataIndex)
  .relocating (api.free dataBlock)
  let pt ← .here
  .access pt (store indexBlock dataIndex 0)
  let nblocks ← .access pt (load root nblocksWord)
  let indexBlock ← .relocating (closeIndexBlock api indexBlock (index1 (sub32 nblocks 1)))
  let pt ← .here
  .access pt (store root (indexWord indexIndex) indexBlock)
  let nblocks ← .access pt (load root nblocksWord)
  .access pt (store root nblocksWord (sub32 nblocks 1))
  pure pt

/-- One round of the loop that shrinks `data_blocks`. -/
def shrinkDataBlocks (api : BlockApi (Db ρ)) (root pt : Nat) : Code (Mapped (Db ρ)) Nat := do
  let nblocks ← .access pt (load root nblocksWord)
  let dataBlock ← .access pt (load root (sub32 nblocks 1))
  .relocating (api.free dataBlock)
  let pt ← .here
  let nblocks ← .access pt (load root nblocksWord)
  .access pt (store root nblocksWord (sub32 nblocks 1))
  .access pt (store root (sub32 nblocks 1) 0)
  pure pt

/-- `page_resize`. The tests of the loops read `pt->nblocks`. -/
def pageResize (api : BlockApi (Db ρ)) (root nblocks : Nat) : Code (Mapped (Db ρ)) Unit := do
  let root ← .relocating (api.modify root)
  let pt ← .here
  let pt ← .whileCarried
    (fun pt =>
      .access pt (.gets fun db => ptNblocks db root < nblocks && ptNblocks db root < levelOne))
    (fun _ => growDataBlocks api root) 4294967296 pt
  let pt ← .whileCarried (fun pt => .access pt (.gets fun db => ptNblocks db root < nblocks))
    (growIndexBlocks api root) 4294967296 pt
  let pt ← .whileCarried
    (fun pt =>
      .access pt (.gets fun db => ptNblocks db root > nblocks && ptNblocks db root > levelOne))
    (shrinkIndexBlocks api root) 4294967296 pt
  let _ ← .whileCarried (fun pt => .access pt (.gets fun db => ptNblocks db root > nblocks))
    (shrinkDataBlocks api root) 4294967296 pt
  pure ()

/-! ## What the pointers reach -/

variable {mode : Code.Mode} {pt : Nat} (api : BlockApi (Db ρ)) (root : Nat)

/-- `page_write_host_index` follows the model without addresses. -/
theorem pageWriteHostIndex_follows (index : Nat) :
    Code.Follows mode Eq (pageWriteHostIndex api root index)
      (EverDb.pageWriteHostIndex api root index) := by
  unfold pageWriteHostIndex EverDb.pageWriteHostIndex
  refine .here_bind fun pt valid => (Code.Follows.access valid _).bind ?_
  rintro nblocks _ rfl
  refine .ite (.fail _) (.ite (.relocating _) (.ite ?_ ?_))
  · refine (Code.Follows.relocating _).bind ?_
    rintro root _ rfl
    refine .here_bind fun pt valid => (Code.Follows.access valid _).bind ?_
    rintro block _ rfl
    exact .relocating _
  · refine (Code.Follows.relocating _).bind ?_
    rintro root _ rfl
    refine .here_bind fun pt valid => (Code.Follows.access valid _).bind ?_
    rintro indexBlock _ rfl
    refine (Code.Follows.relocating _).bind ?_
    rintro indexBlock _ rfl
    refine .here_bind fun ip valid => (Code.Follows.access valid _).bind ?_
    rintro block _ rfl
    exact .relocating _

/-- The loop body that adds data blocks follows the model without addresses. -/
theorem growDataBlocks_follows :
    Code.Follows mode (fun pt _ => mode.Valid pt) (growDataBlocks api root)
      (EverDb.growDataBlocks api root) := by
  unfold growDataBlocks EverDb.growDataBlocks
  refine (Code.Follows.relocating _).bind ?_
  rintro newBlock _ rfl
  refine .here_bind fun pt valid => (Code.Follows.access valid _).bind ?_
  rintro nblocks _ rfl
  refine (Code.Follows.access valid _).bind fun _ _ _ => ?_
  exact (Code.Follows.access valid _).hand fun _ => valid

/-- The loop body that adds blocks behind an index block follows the model. -/
theorem growIndexBlocks_follows (valid : mode.Valid pt) :
    Code.Follows mode (fun pt _ => mode.Valid pt) (growIndexBlocks api root pt)
      (EverDb.growIndexBlocks api root) := by
  unfold growIndexBlocks EverDb.growIndexBlocks
  refine (Code.Follows.access valid _).bind ?_
  rintro nblocks _ rfl
  refine (Code.Follows.access valid _).bind ?_
  rintro indexBlock _ rfl
  refine (Code.Follows.relocating _).bind ?_
  rintro indexBlock _ rfl
  refine .here_bind fun pt valid => (Code.Follows.access valid _).bind fun _ _ _ => ?_
  refine (Code.Follows.relocating _).bind ?_
  rintro newBlock _ rfl
  refine .here_bind fun pt valid => (Code.Follows.access valid _).bind fun _ _ _ => ?_
  refine (Code.Follows.access valid _).bind ?_
  rintro nblocks _ rfl
  exact (Code.Follows.access valid _).hand fun _ => valid

/-- The loop body that gives up blocks behind an index block follows the model. -/
theorem shrinkIndexBlocks_follows (valid : mode.Valid pt) :
    Code.Follows mode (fun pt _ => mode.Valid pt) (shrinkIndexBlocks api root pt)
      (EverDb.shrinkIndexBlocks api root) := by
  unfold shrinkIndexBlocks EverDb.shrinkIndexBlocks
  refine (Code.Follows.access valid _).bind ?_
  rintro nblocks _ rfl
  refine (Code.Follows.access valid _).bind ?_
  rintro indexBlock _ rfl
  refine .here_bind fun ip valid => (Code.Follows.access valid _).bind ?_
  rintro dataBlock _ rfl
  refine (Code.Follows.relocating _).bind fun _ _ _ => ?_
  refine .here_bind fun pt valid => (Code.Follows.access valid _).bind fun _ _ _ => ?_
  refine (Code.Follows.access valid _).bind ?_
  rintro nblocks _ rfl
  refine (Code.Follows.relocating _).bind ?_
  rintro indexBlock _ rfl
  refine .here_bind fun pt valid => (Code.Follows.access valid _).bind fun _ _ _ => ?_
  refine (Code.Follows.access valid _).bind ?_
  rintro nblocks _ rfl
  exact (Code.Follows.access valid _).hand fun _ => valid

/-- The loop body that gives up data blocks follows the model. -/
theorem shrinkDataBlocks_follows (valid : mode.Valid pt) :
    Code.Follows mode (fun pt _ => mode.Valid pt) (shrinkDataBlocks api root pt)
      (EverDb.shrinkDataBlocks api root) := by
  unfold shrinkDataBlocks EverDb.shrinkDataBlocks
  refine (Code.Follows.access valid _).bind ?_
  rintro nblocks _ rfl
  refine (Code.Follows.access valid _).bind ?_
  rintro dataBlock _ rfl
  refine (Code.Follows.relocating _).bind fun _ _ _ => ?_
  refine .here_bind fun pt valid => (Code.Follows.access valid _).bind ?_
  rintro nblocks _ rfl
  refine (Code.Follows.access valid _).bind fun _ _ _ => ?_
  exact (Code.Follows.access valid _).hand fun _ => valid

/-- `page_resize` recomputes its pointers after every call. -/
theorem pageResize_follows (nblocks : Nat) :
    Code.Follows mode Eq (pageResize api root nblocks) (EverDb.pageResize api root nblocks) := by
  unfold pageResize EverDb.pageResize
  refine (Code.Follows.relocating _).bind ?_
  rintro root _ rfl
  refine .here_bind fun pt valid => ?_
  refine (Code.Follows.whileCarried (fun _ valid => .access valid _) (fun _ _ =>
    growDataBlocks_follows api root) _
    pt valid).bind fun pt _ valid => ?_
  refine (Code.Follows.whileCarried (fun _ valid => .access valid _)
    (fun _ valid => growIndexBlocks_follows api root valid) _
    pt valid).bind fun pt _ valid => ?_
  refine (Code.Follows.whileCarried (fun _ valid => .access valid _)
    (fun _ valid => shrinkIndexBlocks_follows api root valid) _ pt valid).bind fun pt _ valid => ?_
  exact (Code.Follows.whileCarried (fun _ valid => .access valid _)
    (fun _ valid => shrinkDataBlocks_follows api root valid) _ pt valid).hand fun _ => rfl

/-! ## Pointers that are computed anew -/

/-- The pointer that is carried is the one computed last. -/
theorem growDataBlocks_renews (base : Nat) :
    Code.Renews (fun now pt _ => pt = now) base (growDataBlocks api root)
      (EverDb.growDataBlocks api root) := by
  unfold growDataBlocks EverDb.growDataBlocks
  refine .relocating_bind fun now newBlock => .here_bind ?_
  exact .access_bind fun nblocks => .access_bind fun _ => .access_hand rfl

/-- A round that adds a block computes its pointer to the root anew. -/
theorem growIndexBlocks_renews (base : Nat) :
    Code.Renews (fun now pt _ => pt = now) base (growIndexBlocks api root base)
      (EverDb.growIndexBlocks api root) := by
  unfold growIndexBlocks EverDb.growIndexBlocks
  refine .access_bind fun nblocks => .access_bind fun indexBlock =>
    .relocating_bind fun now indexBlock => .here_bind ?_
  refine .access_bind fun _ => .relocating_bind fun now newBlock => .here_bind ?_
  exact .access_bind fun _ => .access_bind fun nblocks => .access_hand rfl

/-- A round that gives up a block behind an index block computes its pointer anew. -/
theorem shrinkIndexBlocks_renews (base : Nat) :
    Code.Renews (fun now pt _ => pt = now) base (shrinkIndexBlocks api root base)
      (EverDb.shrinkIndexBlocks api root) := by
  unfold shrinkIndexBlocks EverDb.shrinkIndexBlocks
  refine .access_bind fun nblocks => .access_bind fun indexBlock =>
    .here_bind (.access_bind fun dataBlock => ?_)
  refine .relocating_bind fun now _ =>
    .here_bind (.access_bind fun _ => .access_bind fun nblocks => ?_)
  refine .relocating_bind fun now indexBlock => .here_bind (.access_bind fun _ => ?_)
  exact .access_bind fun nblocks => .access_hand rfl

/-- A round that gives up a data block computes its pointer anew. -/
theorem shrinkDataBlocks_renews (base : Nat) :
    Code.Renews (fun now pt _ => pt = now) base (shrinkDataBlocks api root base)
      (EverDb.shrinkDataBlocks api root) := by
  unfold shrinkDataBlocks EverDb.shrinkDataBlocks
  refine .access_bind fun nblocks => .access_bind fun dataBlock =>
    .relocating_bind fun now _ => .here_bind ?_
  exact .access_bind fun nblocks => .access_bind fun _ => .access_hand rfl

/-- `page_resize` gives the same result wherever its calls move the mapping. -/
theorem pageResize_renews (nblocks base : Nat) :
    Code.Renews (fun _ left right => left = right) base (pageResize api root nblocks)
      (EverDb.pageResize api root nblocks) := by
  unfold pageResize EverDb.pageResize
  refine .relocating_bind fun now root => .here_bind ?_
  refine (Code.Renews.whileCarried (fun _ => .access _) (fun base =>
    growDataBlocks_renews api root base) _ now).bind ?_
  rintro pt _ _ rfl
  refine (Code.Renews.whileCarried (fun _ =>
    .access _) (growIndexBlocks_renews api root) _ _).bind ?_
  rintro pt _ _ rfl
  refine (Code.Renews.whileCarried (fun _ =>
    .access _) (shrinkIndexBlocks_renews api root) _ _).bind ?_
  rintro pt _ _ rfl
  exact (Code.Renews.whileCarried (fun _ => .access _) (shrinkDataBlocks_renews api root) _ _).hand
    fun _ _ _ => rfl

/-- `page_resize` does not depend on the mapping, whatever the root holds. -/
theorem pageResize_relocatable (nblocks : Nat) (db : Db ρ) :
    Code.Relocatable (pageResize api root nblocks) db :=
  Code.Renews.relocatable (pageResize_renews api root nblocks) db

end EverDb.Pointer
