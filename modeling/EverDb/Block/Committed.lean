import EverDb.Block.Contract

/-!
# Committed blocks

Two relations between the states before and after a piece of code: committed
blocks keep their bytes, or at worst some of their words become zero.
-/

namespace EverDb

open Foundation

variable {ρ : Type} {own : Ownership} {db : Db ρ}

/-- Committed blocks stay committed and keep their bytes. -/
def CommittedKept (own later : Ownership) (db after : Db ρ) : Prop :=
  ∀ block, own.Committed block → later.Committed block ∧ after.data block = db.data block

theorem CommittedKept.refl (own : Ownership) (db : Db ρ) : CommittedKept own own db db :=
  fun _ committed => ⟨committed, rfl⟩

theorem CommittedKept.trans {middle later : Ownership} {between after : Db ρ}
    (first : CommittedKept own middle db between)
    (second : CommittedKept middle later between after) :
    CommittedKept own later db after := by
  intro block committed
  obtain ⟨still, same⟩ := first block committed
  obtain ⟨last, sameLast⟩ := second block still
  exact ⟨last, sameLast.trans same⟩

/-- Taking a fresh block and writing to the client's blocks only. -/
theorem CommittedKept.taken {after : Db ρ} {new : Nat} (fresh : ¬own.kept new)
    (same : ∀ other, own.Committed other → after.data other = db.data other) :
    CommittedKept own (own.taken new) db after := by
  intro block committed
  refine ⟨⟨.inl committed.1, ?_⟩, same block committed⟩
  rintro (writable | rfl)
  · exact committed.2 writable
  · exact fresh committed.1

/-- Copying a block and writing to the client's blocks only. -/
theorem CommittedKept.copied {after : Db ρ} {old copy : Nat} (fresh : ¬own.kept copy)
    (same : ∀ other, own.Committed other → after.data other = db.data other) :
    CommittedKept own (own.copied old copy) db after := by
  intro block committed
  refine ⟨⟨.inl committed.1, ?_⟩, same block committed⟩
  rintro (writable | rfl)
  · exact committed.2 writable
  · exact fresh committed.1

/-- The only damage to committed blocks: non-zero words may become zero. -/
def CommittedCleared (own later : Ownership) (db after : Db ρ) : Prop :=
  ∀ block, own.Committed block → later.Committed block ∧
    ∀ i, (db.data block).word i = 0 → (after.data block).word i = 0

theorem CommittedKept.cleared {later : Ownership} {after : Db ρ}
    (kept : CommittedKept own later db after) : CommittedCleared own later db after := by
  intro block committed
  obtain ⟨still, same⟩ := kept block committed
  exact ⟨still, fun i zero => by rw [same, zero]⟩

theorem CommittedCleared.trans {middle later : Ownership} {between after : Db ρ}
    (first : CommittedCleared own middle db between)
    (second : CommittedCleared middle later between after) :
    CommittedCleared own later db after := by
  intro block committed
  obtain ⟨still, zeros⟩ := first block committed
  obtain ⟨last, zerosLast⟩ := second block still
  exact ⟨last, fun i zero => zerosLast i (zeros i zero)⟩

/-- Freeing a block and writing to the client's blocks only. -/
theorem CommittedKept.freed {after : Db ρ} {old : Nat}
    (same : ∀ other, own.Committed other → after.data other = db.data other) :
    CommittedKept own (own.freed old) db after := by
  intro block committed
  refine ⟨⟨⟨committed.1, ?_⟩, fun writable => committed.2 writable.1⟩, same block committed⟩
  rintro ⟨writable, rfl⟩
  exact committed.2 writable

end EverDb
