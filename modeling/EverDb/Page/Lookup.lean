import EverDb.Edb.Model
import EverDb.Io.Spec
import EverDb.Page.Table

/-!
# Making a data block writable

`page_write_host_index` makes writable copies on the way down and returns the last
one, but stores none of the new numbers in its parent. So the block it returns is
the one the table refers to exactly when no copy of the data block was made.
-/

namespace EverDb

open Foundation

variable {ρ : Type} {api : BlockApi (Db ρ)} {contract : BlockContract api} {own : Ownership}
  {db : Db ρ} {root limit : Nat} {blocks indexes : List Nat} {i block : Nat}

/-- A page table whose blocks can be made writable. -/
structure UsableTable (contract : BlockContract api) (own : Ownership) (db : Db ρ)
    (root limit : Nat) (blocks indexes : List Nat) : Prop where
  valid : contract.Valid own db
  table : PageTable db root limit blocks indexes
  writable : own.writable root
  usable : ∀ block ∈ blocks ++ indexes, own.usable block

theorem HeldTable.usableTable (held : HeldTable contract own db root limit blocks indexes) :
    UsableTable contract own db root limit blocks indexes where
  valid := held.valid
  table := held.table
  writable := held.writable
  usable := fun block member => (contract.wf held.valid).live_usable _ (held.live block member)

/-- A table that was not written to is still usable. -/
theorem UsableTable.modified (usable : UsableTable contract own db root limit blocks indexes)
    {later : Ownership} {after : Db ρ} {result : Nat}
    (modified : Modified contract own later db after block result) :
    UsableTable contract later after root limit blocks indexes := by
  have wf := contract.wf usable.valid
  have rootKept : own.kept root :=
    wf.usable_kept _ (wf.live_usable _ (wf.writable_live _ usable.writable))
  refine ⟨modified.valid, usable.table.congr (modified.same root rootKept) ?_, ?_, ?_⟩
  · intro index member
    exact modified.same index
      (wf.usable_kept _ (usable.usable index (List.mem_append_right _ member)))
  · exact (modified.writable_iff root rootKept).mpr usable.writable
  · exact fun block member => modified.usable block (usable.usable block member)

/-- Up to its last step `page_write_host_index` makes at most one copy, of an index
block, and the table is as it was. -/
theorem pageWriteHostIndex_run (usable : UsableTable contract own db root limit blocks indexes)
    (held : blocks[i]? = some block) (room : 0 < own.room) :
    ∃ later before, pageWriteHostIndex api root i db = api.modify block before ∧
      UsableTable contract later before root limit blocks indexes ∧
      (∀ other, own.kept other → before.data other = db.data other) ∧
      (∀ other, own.kept other → (later.writable other ↔ own.writable other)) ∧
      own.room ≤ later.room + 1 := by
  have table := usable.table
  obtain ⟨inside, _⟩ := List.getElem?_eq_some_iff.mp held
  have bounded := table.length_lt
  have present : ¬i ≥ blocks.length := by omega
  have nonempty : blocks.length ≠ 0 := by omega
  have rootSame := contract.modify_writable usable.valid usable.writable
  by_cases low : i < 512
  · refine ⟨own, db, ?_, usable, fun _ _ => rfl, fun _ _ => Iff.rfl, by omega⟩
    simp only [pageWriteHostIndex, load, nblocksWord, Code.gets_bind, table.count, present,
      nonempty, levelOne, low, if_true, if_false]
    rw [Code.bind_ok rootSame, Code.gets_bind, table.direct i block low held]
  · obtain ⟨index, found⟩ := table.exists_index (by omega) inside
    have indexUsable := usable.usable index (by simp [List.mem_of_getElem? found])
    obtain ⟨copy, later, before, ran, modified⟩ := contract.modify usable.valid indexUsable room
    refine ⟨later, before, ?_, usable.modified modified, modified.same, modified.writable_iff,
      modified.room⟩
    simp only [pageWriteHostIndex, load, nblocksWord, Code.gets_bind, table.count, present,
      nonempty, levelOne, low, if_false]
    rw [Code.bind_ok rootSame, Code.gets_bind, index0_eq (by omega) (by omega), indexWord, levelOne,
      table.index _ _ found, Code.bind_ok ran, Code.gets_bind, modified.copied,
      index1_eq (by omega) (by omega), table.entry i block index (by omega) held found]

/-- The block returned for an index is the one the table refers to: reading the
index yields it, the other indexes still yield the same bytes, and asking for it
again yields it again. -/
structure RefersTo (api : BlockApi (Db ρ)) (root i result : Nat) (db after : Db ρ) : Prop where
  read : pageReadHostIndex after root i = (0, result)
  others : ∀ j, j ≠ i → j < ptNblocks db root → ∃ before now,
    pageReadHostIndex db root j = (0, before) ∧ pageReadHostIndex after root j = (0, now) ∧
      after.data now = db.data before
  again : ∃ last, pageWriteHostIndex api root i after = .ok result last

/-- `page_write_host_index` returns the block the table refers to if and only if
that block is writable already. -/
theorem pageWriteHostIndex_refersTo_iff
    (held : HeldTable contract own db root limit blocks indexes)
    (inside : blocks[i]? = some block) (room : 4 ≤ own.room) :
    (∃ result after, pageWriteHostIndex api root i db = .ok result after ∧
      RefersTo api root i result db after) ↔ own.writable block := by
  have usable := held.usableTable
  have wf := contract.wf held.valid
  have keptOf : ∀ other ∈ blocks ++ indexes, own.kept other := fun other member =>
    wf.usable_kept _ (usable.usable other member)
  have blockKept := keptOf block (by simp [List.mem_of_getElem? inside])
  obtain ⟨later, before, ran, usableBefore, same, writableIff, spent⟩ :=
    pageWriteHostIndex_run usable inside (by omega)
  constructor
  · rintro ⟨result, after, wrote, refers⟩
    by_contra committed
    -- the copy is fresh, so it is not the block the table still refers to
    obtain ⟨copy, copiedTo, copiedRan, fresh, _, _, sameAfter⟩ := contract.modify_copy
      usableBefore.valid (usableBefore.usable block (by simp [List.mem_of_getElem? inside]))
      (fun writable => committed ((writableIff block blockKept).mp writable)) (by omega)
    rw [ran, copiedRan] at wrote
    cases wrote
    have laterWf := contract.wf usableBefore.valid
    have tableAfter := usableBefore.table.congr
      (sameAfter root (laterWf.usable_kept _ (laterWf.live_usable _
        (laterWf.writable_live _ usableBefore.writable))))
      (fun index member => sameAfter index
        (laterWf.usable_kept _ (usableBefore.usable index (by simp [member]))))
    have read := refers.read
    rw [tableAfter.read inside] at read
    injection read with _ samePlace
    subst samePlace
    exact fresh (laterWf.usable_kept _
      (usableBefore.usable block (by simp [List.mem_of_getElem? inside])))
  · intro writable
    have stays := contract.modify_writable usableBefore.valid
      ((writableIff block blockKept).mpr writable)
    refine ⟨block, before, by rw [ran, stays], usableBefore.table.read inside, ?_, ?_⟩
    · intro j other bounded
      rw [ptNblocks, nblocksWord, held.table.count] at bounded
      have found := List.getElem?_eq_getElem bounded
      refine ⟨_, _, held.table.read found, usableBefore.table.read found, ?_⟩
      exact same _ (keptOf _ (by simp))
    · obtain ⟨last, finish, again, usableAgain, _, writableLast, _⟩ :=
        pageWriteHostIndex_run usableBefore inside (by omega)
      have laterWf := contract.wf usableBefore.valid
      have keptLater := laterWf.usable_kept _
        (usableBefore.usable block (by simp [List.mem_of_getElem? inside]))
      refine ⟨finish, ?_⟩
      rw [again, contract.modify_writable usableAgain.valid]
      exact (writableLast block keptLater).mpr ((writableIff block blockKept).mpr writable)

/-- A root with one data block, over the allocator of the unit tests. -/
theorem pageWriteHostIndex_refersTo_iff_mock :
    ∃ result after, pageWriteHostIndex mockApi 1 0 (mockTable 4) = .ok result after ∧
      RefersTo mockApi 1 0 result (mockTable 4) after :=
  (pageWriteHostIndex_refersTo_iff (mockTable_held (by decide)) rfl (by decide)).mpr
  (by simp [mockOwnership])

/-- A page table with one data block, committed, whose root a second transaction
has made writable. -/
def reopenedTable : Code EdbDb Nat := do
  edbOpenNew
  edbTxnBegin 3
  let root ← edbAllocateBlock 3
  pageInit root
  pageResize (edbApi 3) root 1
  edbTxnCommit 3
  edbTxnBegin 3
  edbModifyBlock 3 root

/-- In that table the data block is copied and the copy is lost. -/
theorem pageWriteHostIndex_loses_copy :
    ∃ root db block after, reopenedTable emptyFile = .ok root db ∧ 0 < ptNblocks db root ∧
      pageWriteHostIndex (edbApi 3) root 0 db = .ok block after ∧
      ¬RefersTo (edbApi 3) root 0 block db after := by
  have run : ((reopenedTable >>= fun root => do
      let nblocks ← load root nblocksWord
      let block ← pageWriteHostIndex (edbApi 3) root 0
      pure (root, nblocks, block)) emptyFile).passes
      (fun result after => 0 < result.2.1 &&
        (pageReadHostIndex after result.1 0).2 != result.2.2) = true := by
    decide +kernel
  obtain ⟨result, after, ran, differs⟩ := Outcome.of_passes run
  obtain ⟨root, db, reopened, rest⟩ := Code.of_bind_ok ran
  simp only [load, Code.gets_bind] at rest
  obtain ⟨block, last, wrote, final⟩ := Code.of_bind_ok rest
  cases final
  simp only [Bool.and_eq_true, decide_eq_true_eq, bne_iff_ne, ne_eq] at differs
  refine ⟨root, db, block, after, reopened, differs.1, wrote, ?_⟩
  intro refers
  exact differs.2 (congrArg Prod.snd refers.read)

end EverDb
