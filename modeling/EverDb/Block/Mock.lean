import EverDb.Block.Holder
import Mathlib.Data.List.Nodup

/-!
# The allocator of the unit tests

`edb_mock.h`: a vector of free block numbers. `edb_modify_block` returns the block
it is given, so every block is writable.
-/

namespace EverDb

open Foundation

/-- The block functions over the vector of free blocks, last element first. -/
def mockApi : BlockApi (Db (List Nat)) where
  allocate := fun db =>
    match db.ctl with
    | [] => .error (-1) db
    | back :: freelist => .ok back { db with ctl := freelist }
  modify := fun block => .ret block
  free := fun block => .update fun db => { db with ctl := block :: db.ctl }

/-- The free blocks are distinct and none of the client's, who may write to all of
the others. -/
structure MockValid (own : Ownership) (db : Db (List Nat)) : Prop where
  wf : own.Wf
  distinct : db.ctl.Nodup
  free : ∀ block ∈ db.ctl, ¬own.kept block ∧ 0 < block ∧ block < 4294967296
  writable : ∀ block, own.kept block → own.writable block
  room : own.room = db.ctl.length

variable {own : Ownership} {db : Db (List Nat)}

/-- Taking the last free block. -/
theorem MockValid.take (valid : MockValid own db) {back : Nat} {freelist : List Nat}
    (shape : db.ctl = back :: freelist) :
    MockValid (own.taken back) { db with ctl := freelist } := by
  have distinct := shape ▸ valid.distinct
  rw [List.nodup_cons] at distinct
  obtain ⟨_, positive, bounded⟩ := valid.free back (by simp [shape])
  refine ⟨⟨?_, ?_, ?_, ?_, ?_⟩, distinct.2, ?_, ?_, ?_⟩
  · exact fun other held => held.imp (valid.wf.writable_live other) id
  · exact fun other held => held.imp (valid.wf.live_usable other) id
  · exact fun other held => held.imp (valid.wf.usable_kept other) id
  · rintro other (kept | rfl)
    · exact valid.wf.positive other kept
    · exact positive
  · rintro other (kept | rfl)
    · exact valid.wf.bounded other kept
    · exact bounded
  · intro other member
    obtain ⟨notKept, others⟩ := valid.free other (by simp [shape, member])
    refine ⟨?_, others⟩
    rintro (kept | rfl)
    · exact notKept kept
    · exact distinct.1 member
  · exact fun other kept => kept.imp (valid.writable other) id
  · simp [Ownership.taken, valid.room, shape]

/-- Giving a block back. -/
theorem MockValid.giveBack (valid : MockValid own db) {block : Nat} (live : own.live block) :
    MockValid (own.freed block) { db with ctl := block :: db.ctl } := by
  have kept := valid.wf.usable_kept _ (valid.wf.live_usable _ live)
  have writable := valid.writable _ kept
  refine ⟨⟨?_, ?_, ?_, ?_, ?_⟩, ?_, ?_, ?_, ?_⟩
  · exact fun other held => ⟨valid.wf.writable_live other held.1, held.2⟩
  · exact fun other held => held
  · exact fun other held => ⟨valid.wf.usable_kept _ (valid.wf.live_usable _ held.1),
      fun here => held.2 here.2⟩
  · exact fun other held => valid.wf.positive other held.1
  · exact fun other held => valid.wf.bounded other held.1
  · exact List.nodup_cons.mpr ⟨fun member => (valid.free block member).1 kept, valid.distinct⟩
  · intro other member
    rcases List.mem_cons.mp member with rfl | free
    · exact ⟨fun held => held.2 ⟨writable, rfl⟩, valid.wf.positive _ kept, valid.wf.bounded _ kept⟩
    · obtain ⟨notKept, others⟩ := valid.free other free
      exact ⟨fun held => notKept held.1, others⟩
  · intro other held
    exact ⟨valid.writable other held.1, fun here => held.2 ⟨writable, here⟩⟩
  · simp [Ownership.freed, writable, valid.room]

/-- The mock keeps the promises, without ever copying. -/
def mockContract : BlockContract mockApi where
  Valid := MockValid
  wf := fun valid => valid.wf
  write := fun valid _ _ => ⟨valid.wf, valid.distinct, valid.free, valid.writable, valid.room⟩
  allocate := by
    intro own db valid room
    cases shape : db.ctl with
    | nil => simp [valid.room, shape] at room
    | cons back freelist =>
        refine ⟨back, { db with ctl := freelist }, ?_, ?_, valid.take shape, fun _ _ => rfl⟩
        · simp [mockApi, shape]
        · exact (valid.free back (by simp [shape])).1
  modify_writable := fun _ _ => rfl
  modify_copy := fun valid usable committed _ =>
    absurd (valid.writable _ (valid.wf.usable_kept _ usable)) committed
  free := fun valid live => ⟨_, rfl, valid.giveBack live, fun _ _ => rfl⟩

/-- A client that holds the listed blocks and the allocator the others. -/
def mockOwnership (held : List Nat) (free : Nat) : Ownership where
  kept block := block ∈ held
  usable block := block ∈ held
  live block := block ∈ held
  writable block := block ∈ held
  room := free

theorem mockValid_of_disjoint (held free : List Nat) (data : Nat → Image)
    (distinct : (held ++ free).Nodup)
    (numbers : ∀ block ∈ held ++ free, 0 < block ∧ block < 4294967296) :
    MockValid (mockOwnership held free.length) ⟨data, free⟩ := by
  obtain ⟨_, freeDistinct, apart⟩ := List.nodup_append.mp distinct
  refine ⟨⟨fun _ h => h, fun _ h => h, fun _ h => h, ?_, ?_⟩, freeDistinct, ?_, fun _ h => h, rfl⟩
  · exact fun block member => (numbers block (List.mem_append_left _ member)).1
  · exact fun block member => (numbers block (List.mem_append_left _ member)).2
  · intro block member
    exact ⟨fun kept => apart block kept block member rfl,
      numbers block (List.mem_append_right _ member)⟩

/-- The calls of a holder of blocks succeed while the vector lasts. -/
theorem mockHolder_valid {held free : List Nat} {calls : Nat} (data : Nat → Image)
    (distinct : (held ++ free).Nodup)
    (numbers : ∀ block ∈ held ++ free, 0 < block ∧ block < 4294967296)
    (room : calls ≤ free.length) :
    mockContract.holder.Valid {block | block ∈ held} (List.replicate calls 0) ⟨data, free⟩ := by
  refine ⟨mockOwnership held free.length, mockValid_of_disjoint held free data distinct numbers,
    fun _ => Iff.rfl, fun code member => (List.mem_replicate.mp member).2, ?_⟩
  rwa [List.length_replicate]

/-- Every block of a holder is writable for the mock. -/
theorem mockWritableHolder_valid {held free : List Nat} {calls : Nat} (data : Nat → Image)
    (distinct : (held ++ free).Nodup)
    (numbers : ∀ block ∈ held ++ free, 0 < block ∧ block < 4294967296)
    (room : calls ≤ free.length) :
    mockContract.writableHolder.Valid {block | block ∈ held} {block | block ∈ held}
      (List.replicate calls 0)
      ⟨data, free⟩ := by
  refine ⟨mockOwnership held free.length, mockValid_of_disjoint held free data distinct numbers,
    fun _ => Iff.rfl, fun _ member => member, fun code member =>
      (List.mem_replicate.mp member).2, ?_⟩
  rwa [List.length_replicate]

end EverDb
