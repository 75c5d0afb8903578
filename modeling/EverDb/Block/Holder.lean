import EverDb.Block.Contract
import Mathlib.Order.BooleanAlgebra.Set

/-!
# The block functions seen by a holder of blocks

The tree code holds a set of blocks. It writes to blocks it holds, exchanges a
block for a copy, takes unused blocks and gives blocks back, and every block
function may also refuse. `answers` lists the return codes of the calls to come,
so that a specification can say which calls succeed. As in `BlockContract`, block
numbers are those that a word has room for: that the file addresses fewer of them apart
is a fact about `io_resize` (`ioResize_exact_iff`).
-/

namespace EverDb

variable {ρ : Type}

/-- The promises of the block functions to a holder of blocks. -/
structure HolderContract (api : BlockApi (Db ρ)) where
  /-- The allocator's data agree with the blocks held and the answers to come. -/
  Valid : Set Nat → List Int → Db ρ → Prop
  bounded : ∀ {held answers db}, Valid held answers db → ∀ block ∈ held, block < 4294967296
  write : ∀ {held answers db block}, Valid held answers db → block ∈ held → ∀ image,
    Valid held answers (db.write block image)
  allocate : ∀ {held answers db}, Valid held (0 :: answers) db →
    ∃ block after, api.allocate db = .ok block after ∧ block ∉ held ∧
      Valid (insert block held) answers after ∧ ∀ other ∈ held, after.data other = db.data other
  /-- `edb_modify_block` returns the block itself or an unused block with its bytes. -/
  modify : ∀ {held answers db block}, Valid held (0 :: answers) db → block ∈ held →
    ∃ result after, api.modify block db = .ok result after ∧ (result = block ∨ result ∉ held) ∧
      Valid (insert result (held \ {block})) answers after ∧
      after.data result = db.data block ∧ ∀ other ∈ held, after.data other = db.data other
  free : ∀ {held answers db block}, Valid held (0 :: answers) db → block ∈ held →
    ∃ after, api.free block db = .ok () after ∧ Valid (held \ {block}) answers after ∧
      ∀ other ∈ held, other ≠ block → after.data other = db.data other
  allocate_refused : ∀ {held code answers db}, Valid held (code :: answers) db → code ≠ 0 →
    ∃ after, api.allocate db = .error code after ∧ Valid held answers after ∧
      ∀ other ∈ held, after.data other = db.data other
  modify_refused : ∀ {held code answers db block}, Valid held (code :: answers) db → code ≠ 0 →
    block ∈ held → ∃ after, api.modify block db = .error code after ∧ Valid held answers after ∧
      ∀ other ∈ held, after.data other = db.data other
  free_refused : ∀ {held code answers db block}, Valid held (code :: answers) db → code ≠ 0 →
    block ∈ held → ∃ after, api.free block db = .error code after ∧ Valid held answers after ∧
      ∀ other ∈ held, after.data other = db.data other

/-- An allocator that keeps its promises while it has room is one whose next calls
succeed. -/
def BlockContract.holder {api : BlockApi (Db ρ)} (contract : BlockContract api) :
    HolderContract api where
  Valid held answers db := ∃ own, contract.Valid own db ∧ (∀ block, block ∈ held ↔ own.live block) ∧
    (∀ code ∈ answers, code = 0) ∧ answers.length ≤ own.room
  bounded := by
    rintro held answers db ⟨own, valid, same, _⟩ block member
    have wf := contract.wf valid
    exact wf.bounded block (wf.usable_kept _ (wf.live_usable _ ((same block).mp member)))
  write := by
    rintro held answers db block ⟨own, valid, same, rest⟩ member image
    exact ⟨own, contract.write valid ((same block).mp member) image, same, rest⟩
  allocate := by
    rintro held answers db ⟨own, valid, same, zeros, room⟩
    have wf := contract.wf valid
    rw [List.length_cons] at room
    obtain ⟨block, after, ran, fresh, later, kept⟩ :=
      contract.allocate valid (Nat.lt_of_lt_of_le (Nat.succ_pos _) room)
    have liveKept : ∀ other ∈ held, own.kept other := fun other member =>
      wf.usable_kept _ (wf.live_usable _ ((same other).mp member))
    refine ⟨block, after, ran, fun member => fresh (liveKept block member),
      ⟨_, later, fun other => ?_, fun code member =>
        zeros code (List.mem_cons_of_mem _ member), ?_⟩,
      fun other member => kept other (liveKept other member)⟩
    · rw [Set.mem_insert_iff, same other, or_comm]
      rfl
    · exact Nat.le_sub_one_of_lt room
  modify := by
    rintro held answers db block ⟨own, valid, same, zeros, room⟩ member
    have wf := contract.wf valid
    rw [List.length_cons] at room
    have live := (same block).mp member
    have zerosRest : ∀ code ∈ answers, code = 0 := fun code inside =>
      zeros code (List.mem_cons_of_mem _ inside)
    have liveKept : ∀ other ∈ held, own.kept other := fun other inside =>
      wf.usable_kept _ (wf.live_usable _ ((same other).mp inside))
    by_cases writable : own.writable block
    · refine ⟨block, db, contract.modify_writable valid writable, .inl rfl,
        ⟨own, valid, fun other => ?_, zerosRest, Nat.le_of_succ_le room⟩, rfl, fun _ _ => rfl⟩
      rw [Set.insert_sdiff_singleton, Set.insert_eq_of_mem member, same other]
    · obtain ⟨copy, after, ran, fresh, later, copied, kept⟩ :=
        contract.modify_copy valid (wf.live_usable _ live) writable
          (Nat.lt_of_lt_of_le (Nat.succ_pos _) room)
      refine ⟨copy, after, ran, .inr fun inside => fresh (liveKept copy inside),
        ⟨_, later, fun other => ?_, zerosRest, ?_⟩, copied,
        fun other inside => kept other (liveKept other inside)⟩
      · rw [Set.mem_insert_iff, Set.mem_sdiff, Set.mem_singleton_iff, same other, or_comm]
        rfl
      · exact Nat.le_sub_one_of_lt room
  free := by
    rintro held answers db block ⟨own, valid, same, zeros, room⟩ member
    have wf := contract.wf valid
    rw [List.length_cons] at room
    obtain ⟨after, ran, later, kept⟩ := contract.free valid ((same block).mp member)
    refine ⟨after, ran, ⟨_, later, fun other => ?_,
      fun code inside => zeros code (List.mem_cons_of_mem _ inside), ?_⟩, fun other inside _ =>
      kept other (wf.usable_kept _ (wf.live_usable _ ((same other).mp inside)))⟩
    · rw [Set.mem_sdiff, Set.mem_singleton_iff, same other]
      rfl
    · have fewer : answers.length ≤ own.room := Nat.le_of_succ_le room
      simp only [Ownership.freed]
      split
      · exact Nat.le_succ_of_le fewer
      · exact fewer
  allocate_refused := by
    rintro held code answers db ⟨own, valid, same, zeros, room⟩ nonzero
    exact absurd (zeros code List.mem_cons_self) nonzero
  modify_refused := by
    rintro held code answers db block ⟨own, valid, same, zeros, room⟩ nonzero member
    exact absurd (zeros code List.mem_cons_self) nonzero
  free_refused := by
    rintro held code answers db block ⟨own, valid, same, zeros, room⟩ nonzero member
    exact absurd (zeros code List.mem_cons_self) nonzero

/-- The promises of the block functions to a holder that removes: a block that
`edb_modify_block` has returned is writable, and is returned as it is when it is passed
again. -/
structure WritableContract (api : BlockApi (Db ρ)) where
  /-- The allocator's data agree with the blocks held, the writable ones among them and
  the answers to come. -/
  Valid : Set Nat → Set Nat → List Int → Db ρ → Prop
  bounded : ∀ {held writable answers db}, Valid held writable answers db → ∀ block ∈ held,
    block < 4294967296
  write : ∀ {held writable answers db block}, Valid held writable answers db →
    block ∈ held → ∀ image,
    Valid held writable answers (db.write block image)
  modify :
    ∀ {held writable answers db block}, Valid held writable (0 :: answers) db → block ∈ held →
    ∃ result after, api.modify block db = .ok result after ∧ (result = block ∨ result ∉ held) ∧
      Valid (insert result (held \ {block})) (insert result (writable \ {block})) answers after ∧
      after.data result = db.data block ∧ ∀ other ∈ held, after.data other = db.data other
  modify_writable : ∀ {held writable answers db block}, Valid held writable (0 :: answers) db →
    block ∈ held → block ∈ writable → ∃ after, api.modify block db = .ok block after ∧
      Valid held writable answers after ∧ ∀ other ∈ held, after.data other = db.data other
  free : ∀ {held writable answers db block}, Valid held writable (0 :: answers) db → block ∈ held →
    ∃ after, api.free block db = .ok () after ∧
      Valid (held \ {block}) (writable \ {block}) answers after ∧
      ∀ other ∈ held, other ≠ block → after.data other = db.data other
  modify_refused : ∀ {held writable code answers db block},
    Valid held writable (code :: answers) db → code ≠ 0 → block ∈ held →
    ∃ after, api.modify block db = .error code after ∧
    ∀ other ∈ held, after.data other = db.data other
  free_refused : ∀ {held writable code answers db block},
    Valid held writable (code :: answers) db → code ≠ 0 → block ∈ held →
    ∃ after, api.free block db = .error code after ∧
    ∀ other ∈ held, after.data other = db.data other

/-- An allocator that keeps its promises while it has room, seen by a holder that
removes. -/
def BlockContract.writableHolder {api : BlockApi (Db ρ)} (contract : BlockContract api) :
    WritableContract api where
  Valid held writable answers db :=
    ∃ own, contract.Valid own db ∧ (∀ block, block ∈ held ↔ own.live block) ∧
    (∀ block ∈ writable, own.writable block) ∧ (∀ code ∈ answers, code = 0) ∧
    answers.length ≤ own.room
  bounded := by
    rintro held writable answers db ⟨own, valid, same, _⟩ block member
    have wf := contract.wf valid
    exact wf.bounded block (wf.usable_kept _ (wf.live_usable _ ((same block).mp member)))
  write := by
    rintro held writable answers db block ⟨own, valid, same, rest⟩ member image
    exact ⟨own, contract.write valid ((same block).mp member) image, same, rest⟩
  modify := by
    rintro held writable answers db block ⟨own, valid, same, owned, zeros, room⟩ member
    have wf := contract.wf valid
    rw [List.length_cons] at room
    have live := (same block).mp member
    have zerosRest : ∀ code ∈ answers, code = 0 := fun code inside =>
      zeros code (List.mem_cons_of_mem _ inside)
    have liveKept : ∀ other ∈ held, own.kept other := fun other inside =>
      wf.usable_kept _ (wf.live_usable _ ((same other).mp inside))
    by_cases writableBlock : own.writable block
    · refine ⟨block, db, contract.modify_writable valid writableBlock, .inl rfl,
        ⟨own, valid, fun other => ?_, fun other inside => ?_, zerosRest, Nat.le_of_succ_le room⟩,
          rfl, fun _ _ => rfl⟩
      · rw [Set.insert_sdiff_singleton, Set.insert_eq_of_mem member, same other]
      · rcases Set.mem_insert_iff.mp inside with rfl | others
        · exact writableBlock
        · exact owned other others.1
    · obtain ⟨copy, after, ran, fresh, later, copied, kept⟩ :=
        contract.modify_copy valid (wf.live_usable _ live) writableBlock
          (Nat.lt_of_lt_of_le (Nat.succ_pos _) room)
      refine ⟨copy, after, ran, .inr fun inside => fresh (liveKept copy inside),
        ⟨_, later, fun other => ?_, fun other inside => ?_, zerosRest, ?_⟩, copied,
        fun other inside => kept other (liveKept other inside)⟩
      · rw [Set.mem_insert_iff, Set.mem_sdiff, Set.mem_singleton_iff, same other, or_comm]
        rfl
      · rcases Set.mem_insert_iff.mp inside with rfl | others
        · exact .inr rfl
        · exact .inl (owned other others.1)
      · exact Nat.le_sub_one_of_lt room
  modify_writable := by
    rintro held writable answers db block ⟨own, valid, same, owned, zeros, room⟩ _ member
    rw [List.length_cons] at room
    exact ⟨db, contract.modify_writable valid (owned block member),
      ⟨own, valid, same, owned, fun code inside => zeros code (List.mem_cons_of_mem _ inside),
        Nat.le_of_succ_le room⟩,
      fun _ _ => rfl⟩
  free := by
    rintro held writable answers db block ⟨own, valid, same, owned, zeros, room⟩ member
    have wf := contract.wf valid
    rw [List.length_cons] at room
    obtain ⟨after, ran, later, kept⟩ := contract.free valid ((same block).mp member)
    refine ⟨after, ran,
      ⟨_, later, fun other => ?_, fun other inside => ⟨owned other inside.1, inside.2⟩,
      fun code inside => zeros code (List.mem_cons_of_mem _ inside), ?_⟩, fun other inside _ =>
      kept other (wf.usable_kept _ (wf.live_usable _ ((same other).mp inside)))⟩
    · rw [Set.mem_sdiff, Set.mem_singleton_iff, same other]
      rfl
    · have fewer : answers.length ≤ own.room := Nat.le_of_succ_le room
      simp only [Ownership.freed]
      split
      · exact Nat.le_succ_of_le fewer
      · exact fewer
  modify_refused := by
    rintro held writable code answers db block ⟨own, valid, same, owned, zeros, room⟩ nonzero member
    exact absurd (zeros code List.mem_cons_self) nonzero
  free_refused := by
    rintro held writable code answers db block ⟨own, valid, same, owned, zeros, room⟩ nonzero member
    exact absurd (zeros code List.mem_cons_self) nonzero

end EverDb
