import EverDb.Core

/-!
# What the block functions promise

The tree, page-table and array code relies on the allocator for a few promises
only. `Ownership` is the client's view of the blocks in an open transaction and
`BlockContract` says how each block function changes it. A block is writable when
the transaction allocated it or made it as a copy; `edb_modify_block` returns a
writable block unchanged and otherwise a fresh copy with the same bytes. An
allocator that hands out 32-bit numbers cannot answer without end, so `room`
counts the blocks it can still deliver.

A block keeps its bytes by its number here, whatever the number. The mapped file
addresses blocks apart below `2 ^ 20` only (`ioResize_exact_iff`), and the instance over
the file, `edbContract`, holds none beyond.
-/

namespace EverDb

variable {ρ : Type}

/-- A client's view of the blocks. -/
structure Ownership where
  /-- Blocks whose bytes the allocator leaves alone. -/
  kept : Nat → Prop
  /-- Blocks that may still be passed to `edb_modify_block`. -/
  usable : Nat → Prop
  /-- Blocks the client refers to and may free. -/
  live : Nat → Prop
  /-- Blocks returned by `edb_allocate_block` or `edb_modify_block`. -/
  writable : Nat → Prop
  room : Nat

namespace Ownership

/-- The sets are nested and block numbers are non-zero 32-bit numbers. The code that relies
on this stores them in words of a page; where a block lies in the file is not its concern. -/
structure Wf (own : Ownership) : Prop where
  writable_live : ∀ block, own.writable block → own.live block
  live_usable : ∀ block, own.live block → own.usable block
  usable_kept : ∀ block, own.usable block → own.kept block
  positive : ∀ block, own.kept block → 0 < block
  bounded : ∀ block, own.kept block → block < 4294967296

/-- A block that older transactions own: it may be read but not written. -/
def Committed (own : Ownership) (block : Nat) : Prop := own.kept block ∧ ¬own.writable block

/-- After `edb_allocate_block` returned `block`. -/
def taken (own : Ownership) (block : Nat) : Ownership where
  kept other := own.kept other ∨ other = block
  usable other := own.usable other ∨ other = block
  live other := own.live other ∨ other = block
  writable other := own.writable other ∨ other = block
  room := own.room - 1

/-- After `edb_modify_block` copied `block` to `copy`, the number to use from then
on. -/
def copied (own : Ownership) (block copy : Nat) : Ownership where
  kept other := own.kept other ∨ other = copy
  usable other := own.usable other ∨ other = copy
  live other := own.live other ∧ other ≠ block ∨ other = copy
  writable other := own.writable other ∨ other = copy
  room := own.room - 1

open Classical in
/-- After `edb_free_block`. A writable block returns to the allocator at once, an
older one stays as it is until the transaction ends. -/
noncomputable def freed (own : Ownership) (block : Nat) : Ownership where
  kept other := own.kept other ∧ ¬(own.writable block ∧ other = block)
  usable other := own.live other ∧ other ≠ block
  live other := own.live other ∧ other ≠ block
  writable other := own.writable other ∧ other ≠ block
  room := if own.writable block then own.room + 1 else own.room

end Ownership

/-- The promises of the block functions. -/
structure BlockContract (api : BlockApi (Db ρ)) where
  /-- The allocator's own data are sound and agree with the client's view. -/
  Valid : Ownership → Db ρ → Prop
  wf : ∀ {own db}, Valid own db → own.Wf
  /-- The allocator's data lie outside the client's blocks. -/
  write : ∀ {own db block}, Valid own db → own.live block → ∀ image,
    Valid own (db.write block image)
  allocate : ∀ {own db}, Valid own db → 0 < own.room →
    ∃ block after, api.allocate db = .ok block after ∧ ¬own.kept block ∧
      Valid (own.taken block) after ∧
      ∀ other, own.kept other → after.data other = db.data other
  modify_writable : ∀ {own db block}, Valid own db → own.writable block →
    api.modify block db = .ok block db
  modify_copy : ∀ {own db block}, Valid own db → own.usable block → ¬own.writable block →
    0 < own.room →
    ∃ copy after, api.modify block db = .ok copy after ∧ ¬own.kept copy ∧
      Valid (own.copied block copy) after ∧ after.data copy = db.data block ∧
      ∀ other, own.kept other → after.data other = db.data other
  free : ∀ {own db block}, Valid own db → own.live block →
    ∃ after, api.free block db = .ok () after ∧ Valid (own.freed block) after ∧
      ∀ other, own.kept other → after.data other = db.data other

/-- What `edb_modify_block` did, whether or not it copied. -/
structure Modified {api : BlockApi (Db ρ)} (contract : BlockContract api) (own later : Ownership)
    (db after : Db ρ) (block result : Nat) : Prop where
  valid : contract.Valid later after
  writable : later.writable result
  copied : after.data result = db.data block
  kept : ∀ other, own.kept other → later.kept other
  same : ∀ other, own.kept other → after.data other = db.data other
  usable : ∀ other, own.usable other → later.usable other
  writable_iff : ∀ other, own.kept other → (later.writable other ↔ own.writable other)
  live : ∀ other, other ≠ block → own.live other → later.live other
  fresh : result = block ∨ ¬own.kept result
  room : own.room ≤ later.room + 1

namespace BlockContract

variable {api : BlockApi (Db ρ)} (contract : BlockContract api) {own : Ownership} {db : Db ρ}
  {block : Nat}

/-- Both cases of `edb_modify_block`. -/
theorem modify (valid : contract.Valid own db) (usable : own.usable block) (room : 0 < own.room) :
    ∃ result later after, api.modify block db = .ok result after ∧
      Modified contract own later db after block result := by
  by_cases writable : own.writable block
  · refine ⟨block, own, db, contract.modify_writable valid writable, valid, writable, rfl,
      fun _ kept => kept, fun _ _ => rfl, fun _ used => used, fun _ _ => Iff.rfl,
      fun _ _ live => live, .inl rfl, by omega⟩
  · obtain ⟨copy, after, ran, fresh, later, copied, same⟩ :=
      contract.modify_copy valid usable writable room
    refine ⟨copy, _, after, ran, later, .inr rfl, copied, fun _ kept => .inl kept, same,
      fun _ used => .inl used, ?_, fun _ other live => .inl ⟨live, other⟩, .inr fresh, ?_⟩
    · intro other kept
      constructor
      · rintro (before | rfl)
        · exact before
        · exact absurd kept fresh
      · exact .inl
    · simp only [Ownership.copied]
      omega

end BlockContract

end EverDb
