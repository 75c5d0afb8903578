import EverDb.Block.Contract
import Mathlib.Algebra.BigOperators.Group.Finset.Basic
import Mathlib.Data.Fintype.Basic

/-!
# Shares of an allocator

A client may deal out its blocks. Each share, with its part of the room, sees an
allocator that keeps the promises of the block functions, and the blocks of the other
shares stay as they are. What is proved of one owner alone holds beside any others.
-/

namespace EverDb

open Foundation

variable {ρ : Type} {api : BlockApi (Db ρ)} {contract : BlockContract api}
  {own rest full later : Ownership}
  {db after : Db ρ} {block new : Nat}

namespace Ownership

/-- Between two calls no block is usable that is not live. -/
def settled (own : Ownership) : Ownership := { own with usable := own.live }

/-- An ownership stays well formed when the transaction ends. -/
theorem Wf.settled (wf : own.Wf) : own.settled.Wf :=
  ⟨wf.writable_live, fun _ live => live, fun block live =>
    wf.usable_kept block (wf.live_usable block live), wf.positive, wf.bounded⟩

/-- Live blocks are kept. -/
theorem Wf.live_kept (wf : own.Wf) (live : own.live block) : own.kept block :=
  wf.usable_kept block (wf.live_usable block live)

/-- Writable blocks are kept. -/
theorem Wf.writable_kept (wf : own.Wf) (writable : own.writable block) : own.kept block :=
  wf.live_kept (wf.writable_live block writable)

/-- An ownership stays well formed when a block is taken. -/
theorem Wf.taken (wf : own.Wf) (positive : 0 < new) (bounded : new < 4294967296) :
    (own.taken new).Wf where
  writable_live _ writable := writable.imp (wf.writable_live _) id
  live_usable _ live := live.imp (wf.live_usable _) id
  usable_kept _ usable := usable.imp (wf.usable_kept _) id
  positive _ kept := kept.elim (wf.positive _) fun same => same ▸ positive
  bounded _ kept := kept.elim (wf.bounded _) fun same => same ▸ bounded

/-- An ownership stays well formed when a block is copied. -/
theorem Wf.copied (wf : own.Wf) (unwritable : ¬own.writable block) (positive : 0 < new)
    (bounded : new < 4294967296) :
    (own.copied block new).Wf where
  writable_live other writable := by
    refine writable.imp (fun old => ⟨wf.writable_live _ old, ?_⟩) id
    rintro rfl
    exact unwritable old
  live_usable _ live := live.imp (fun old => wf.live_usable _ old.1) id
  usable_kept _ usable := usable.imp (wf.usable_kept _) id
  positive _ kept := kept.elim (wf.positive _) fun same => same ▸ positive
  bounded _ kept := kept.elim (wf.bounded _) fun same => same ▸ bounded

/-- An ownership stays well formed when a block is freed. -/
theorem Wf.freed (wf : own.Wf) (block : Nat) : (own.freed block).Wf where
  writable_live _ writable := ⟨wf.writable_live _ writable.1, writable.2⟩
  live_usable _ live := live
  usable_kept _ usable := ⟨wf.live_kept usable.1, fun both => usable.2 both.2⟩
  positive _ kept := wf.positive _ kept.1
  bounded _ kept := wf.bounded _ kept.1

/-- The blocks of `full` are those of `own` and those of `rest`, and no block is both. -/
structure Splits (own rest full : Ownership) : Prop where
  wf : own.Wf
  restWf : rest.Wf
  apart : ∀ block, own.kept block → ¬rest.kept block
  kept : ∀ block, full.kept block ↔ own.kept block ∨ rest.kept block
  usable : ∀ block, own.usable block → full.usable block
  live : ∀ block, full.live block ↔ own.live block ∨ rest.live block
  writable : ∀ block, full.writable block ↔ own.writable block ∨ rest.writable block
  room : own.room + rest.room ≤ full.room

namespace Splits

/-- What the owner of one share knows of its blocks, it knows of them in the whole. -/
theorem writable_iff (splits : Splits own rest full) (kept : own.kept block) :
    full.writable block ↔ own.writable block :=
  (splits.writable block).trans
    ⟨fun either => either.resolve_right fun other =>
      splits.apart block kept (splits.restWf.writable_kept other), .inl⟩

/-- A share with room lies in a whole with room. -/
theorem positive (splits : Splits own rest full) (room : 0 < own.room) : 0 < full.room :=
  Nat.lt_of_lt_of_le (Nat.lt_of_lt_of_le room (Nat.le_add_right _ _)) splits.room

/-- What the share keeps is not live in the rest. -/
theorem not_live (splits : Splits own rest full) (kept : own.kept block) :
    ¬rest.live block := fun live =>
  splits.apart block kept (splits.restWf.live_kept live)

/-- Taking a block into a share. -/
theorem taken (splits : Splits own rest full) (fresh : ¬full.kept new) (wf : (full.taken new).Wf)
    (room : 0 < own.room) :
    Splits (own.taken new) rest (full.taken new) where
  wf := splits.wf.taken (wf.positive new (.inr rfl)) (wf.bounded new (.inr rfl))
  restWf := splits.restWf
  apart := by
    rintro block (old | rfl) other
    · exact splits.apart block old other
    · exact fresh ((splits.kept block).mpr (.inr other))
  kept block := by
    simp only [Ownership.taken, splits.kept]
    exact or_right_comm
  usable block usable := usable.imp (splits.usable block) id
  live block := by
    simp only [Ownership.taken, splits.live]
    exact or_right_comm
  writable block := by
    simp only [Ownership.taken, splits.writable]
    exact or_right_comm
  room := by
    have total := splits.room
    simp only [Ownership.taken]
    omega

/-- Copying a block within a share. -/
theorem copied (splits : Splits own rest full) (usable : own.usable block)
    (unwritable : ¬own.writable block)
    (fresh : ¬full.kept new) (wf : (full.copied block new).Wf) (room : 0 < own.room) :
    Splits (own.copied block new) rest (full.copied block new) where
  wf := splits.wf.copied unwritable (wf.positive new (.inr rfl)) (wf.bounded new (.inr rfl))
  restWf := splits.restWf
  apart := by
    rintro other (old | rfl) elsewhere
    · exact splits.apart other old elsewhere
    · exact fresh ((splits.kept other).mpr (.inr elsewhere))
  kept other := by
    simp only [Ownership.copied, splits.kept]
    exact or_right_comm
  usable other usable := usable.imp (splits.usable other) id
  live other := by
    have elsewhere : rest.live other → other ≠ block := by
      rintro live rfl
      exact splits.not_live (splits.wf.usable_kept other usable) live
    simp only [Ownership.copied, splits.live]
    constructor
    · rintro (⟨mine | live, apart⟩ | same)
      · exact .inl (.inl ⟨mine, apart⟩)
      · exact .inr live
      · exact .inl (.inr same)
    · rintro ((⟨mine, apart⟩ | same) | live)
      · exact .inl ⟨.inl mine, apart⟩
      · exact .inr same
      · exact .inl ⟨.inr live, elsewhere live⟩
  writable other := by
    simp only [Ownership.copied, splits.writable]
    exact or_right_comm
  room := by
    have total := splits.room
    simp only [Ownership.copied]
    omega

/-- Freeing a block of a share. -/
theorem freed (splits : Splits own rest full) (live : own.live block) :
    Splits (own.freed block) rest (full.freed block) := by
  have mine := splits.wf.live_kept live
  have writable := splits.writable_iff mine
  have elsewhere : ∀ {other}, rest.kept other → other ≠ block := by
    rintro other kept rfl
    exact splits.apart other mine kept
  refine ⟨splits.wf.freed block, splits.restWf, fun other kept => splits.apart other kept.1,
    fun other => ?_,
    fun other usable => ⟨(splits.live other).mpr (.inl usable.1), usable.2⟩, fun other => ?_,
      fun other => ?_, ?_⟩
  · simp only [Ownership.freed, splits.kept, writable]
    constructor
    · rintro ⟨old | kept, outside⟩
      · exact .inl ⟨old, outside⟩
      · exact .inr kept
    · rintro (⟨old, outside⟩ | kept)
      · exact ⟨.inl old, outside⟩
      · exact ⟨.inr kept, fun both => elsewhere kept both.2⟩
  · simp only [Ownership.freed, splits.live]
    constructor
    · rintro ⟨old | other, apart⟩
      · exact .inl ⟨old, apart⟩
      · exact .inr other
    · rintro (⟨old, apart⟩ | other)
      · exact ⟨.inl old, apart⟩
      · exact ⟨.inr other, elsewhere (splits.restWf.live_kept other)⟩
  · simp only [Ownership.freed, splits.writable]
    constructor
    · rintro ⟨old | other, apart⟩
      · exact .inl ⟨old, apart⟩
      · exact .inr other
    · rintro (⟨old, apart⟩ | other)
      · exact ⟨.inl old, apart⟩
      · exact ⟨.inr other, elsewhere (splits.restWf.writable_kept other)⟩
  · have total := splits.room
    simp only [Ownership.freed]
    by_cases mine : own.writable block
    · rw [if_pos mine, if_pos (writable.mpr mine)]
      omega
    · rw [if_neg mine, if_neg (mt writable.mp mine)]
      exact total

end Splits

end Ownership

open Ownership

/-- The promises of the block functions to the owner of a share, beside the share `rest`
whose blocks have the bytes `bytes`. -/
def BlockContract.beside (contract : BlockContract api) (rest : Ownership) (bytes : Nat → Image) :
    BlockContract api where
  Valid own db := ∃ full, contract.Valid full db ∧ Splits own rest full ∧ ∀ block, rest.kept block →
    db.data block = bytes block
  wf := fun ⟨_, _, splits, _⟩ => splits.wf
  write := by
    rintro own db block ⟨full, valid, splits, same⟩ live image
    refine ⟨full, contract.write valid ((splits.live block).mpr (.inl live)) image, splits,
      fun other kept => ?_⟩
    rw [Db.write_data_of_ne, same other kept]
    rintro rfl
    exact splits.apart other (splits.wf.live_kept live) kept
  allocate := by
    rintro own db ⟨full, valid, splits, same⟩ room
    obtain ⟨block, after, ran, fresh, later, kept⟩ := contract.allocate valid (splits.positive room)
    refine ⟨block, after, ran, fun mine => fresh ((splits.kept block).mpr (.inl mine)),
      ⟨_, later, splits.taken fresh (contract.wf later) room, fun other elsewhere => ?_⟩,
      fun other mine => kept other ((splits.kept other).mpr (.inl mine))⟩
    rw [kept other ((splits.kept other).mpr (.inr elsewhere)), same other elsewhere]
  modify_writable := by
    rintro own db block ⟨full, valid, splits, _⟩ writable
    exact contract.modify_writable valid ((splits.writable block).mpr (.inl writable))
  modify_copy := by
    rintro own db block ⟨full, valid, splits, same⟩ usable unwritable room
    have outside : ¬full.writable block := fun writable =>
      unwritable ((splits.writable_iff (splits.wf.usable_kept block usable)).mp writable)
    obtain ⟨copy, after, ran, fresh, later, copied, kept⟩ :=
      contract.modify_copy valid (splits.usable block usable) outside (splits.positive room)
    refine ⟨copy, after, ran, fun mine => fresh ((splits.kept copy).mpr (.inl mine)),
      ⟨_, later, splits.copied usable unwritable fresh (contract.wf later) room,
        fun other elsewhere => ?_⟩, copied,
      fun other mine => kept other ((splits.kept other).mpr (.inl mine))⟩
    rw [kept other ((splits.kept other).mpr (.inr elsewhere)), same other elsewhere]
  free := by
    rintro own db block ⟨full, valid, splits, same⟩ live
    obtain ⟨after, ran, later, kept⟩ := contract.free valid ((splits.live block).mpr (.inl live))
    refine ⟨after, ran, ⟨_, later, splits.freed live, fun other elsewhere => ?_⟩,
      fun other mine => kept other ((splits.kept other).mpr (.inl mine))⟩
    rw [kept other ((splits.kept other).mpr (.inr elsewhere)), same other elsewhere]

/-! ## Many shares -/

section Shares

variable {ι : Type} {shares : ι → Ownership} {i : ι}

/-- One or another one. -/
theorem exists_focus {holds : ι → Prop} (i : ι) : (∃ j, holds j) ↔
    holds i ∨ ∃ j, j ≠ i ∧ holds j := by
  constructor
  · rintro ⟨j, there⟩
    by_cases same : j = i
    · exact .inl (same ▸ there)
    · exact .inr ⟨j, same, there⟩
  · rintro (here | ⟨j, _, there⟩)
    · exact ⟨i, here⟩
    · exact ⟨j, there⟩

/-- One or another one, where one has been replaced. -/
theorem exists_update [DecidableEq ι] (holds : Ownership → Prop) :
    (∃ j, holds (Function.update shares i later j)) ↔
    holds later ∨ ∃ j, j ≠ i ∧ holds (shares j) := by
  rw [exists_focus i, Function.update_self]
  refine or_congr_right (exists_congr fun j => and_congr_right fun apart => ?_)
  rw [Function.update_of_ne apart]

variable [Fintype ι] [DecidableEq ι]

/-- The shares but one, together. -/
def others (shares : ι → Ownership) (i : ι) : Ownership where
  kept block := ∃ j, j ≠ i ∧ (shares j).kept block
  usable block := ∃ j, j ≠ i ∧ (shares j).live block
  live block := ∃ j, j ≠ i ∧ (shares j).live block
  writable block := ∃ j, j ≠ i ∧ (shares j).writable block
  room := ∑ j ∈ Finset.univ.erase i, (shares j).room

/-- The blocks of an allocator, dealt out. -/
structure Dealt (contract : BlockContract api) (shares : ι → Ownership) (full : Ownership)
    (db : Db ρ) : Prop where
  valid : contract.Valid full db
  wf : ∀ i, (shares i).Wf
  apart : ∀ i j block, (shares i).kept block → (shares j).kept block → i = j
  kept : ∀ block, full.kept block ↔ ∃ i, (shares i).kept block
  live : ∀ block, full.live block ↔ ∃ i, (shares i).live block
  writable : ∀ block, full.writable block ↔ ∃ i, (shares i).writable block
  room : ∑ i, (shares i).room ≤ full.room

namespace Dealt

/-- Each owner has an allocator. -/
theorem share (dealt : Dealt contract shares full db) (i : ι) :
    (contract.beside (others shares i) db.data).Valid (shares i).settled db := by
  refine ⟨full, dealt.valid,
    ⟨(dealt.wf i).settled, ?_, ?_, fun block => ?_, fun block live => ?_, fun block => ?_,
    fun block => ?_, ?_⟩, fun _ _ => rfl⟩
  · exact ⟨fun _ ⟨j, apart, writable⟩ => ⟨j, apart, (dealt.wf j).writable_live _ writable⟩,
      fun _ live => live,
      fun _ ⟨j, apart, live⟩ => ⟨j, apart, (dealt.wf j).live_kept live⟩,
      fun _ ⟨j, _, kept⟩ => (dealt.wf j).positive _ kept, fun _ ⟨j, _, kept⟩ =>
        (dealt.wf j).bounded _ kept⟩
  · rintro block mine ⟨j, apart, kept⟩
    exact apart (dealt.apart j i block kept mine)
  · exact (dealt.kept block).trans (exists_focus i)
  · exact (contract.wf dealt.valid).live_usable block ((dealt.live block).mpr ⟨i, live⟩)
  · exact (dealt.live block).trans (exists_focus i)
  · exact (dealt.writable block).trans (exists_focus i)
  · have total : (shares i).room + ∑ j ∈ Finset.univ.erase i, (shares j).room =
        ∑ j, (shares j).room :=
      Finset.add_sum_erase Finset.univ (fun j => (shares j).room) (Finset.mem_univ i)
    exact Nat.le_trans (Nat.le_of_eq total) dealt.room

/-- What one owner does changes no other share. -/
theorem call (dealt : Dealt contract shares full db)
    (valid : (contract.beside (others shares i) db.data).Valid later after) :
    (∃ full, Dealt contract (Function.update shares i later) full after) ∧
      ∀ j, j ≠ i → ∀ block, (shares j).kept block → after.data block = db.data block := by
  obtain ⟨full, valid, splits, same⟩ := valid
  refine ⟨⟨full, valid, fun j => ?_, fun j k block left right => ?_, fun block => ?_,
    fun block => ?_,
    fun block => ?_, ?_⟩, fun j apart block kept => same block ⟨j, apart, kept⟩⟩
  · by_cases here : j = i
    · rw [here, Function.update_self]
      exact splits.wf
    · rw [Function.update_of_ne here]
      exact dealt.wf j
  · by_cases first : j = i <;> by_cases second : k = i
    · exact first.trans second.symm
    · rw [first, Function.update_self] at left
      rw [Function.update_of_ne second] at right
      exact absurd ⟨k, second, right⟩ (splits.apart block left)
    · rw [Function.update_of_ne first] at left
      rw [second, Function.update_self] at right
      exact absurd ⟨j, first, left⟩ (splits.apart block right)
    · rw [Function.update_of_ne first] at left
      rw [Function.update_of_ne second] at right
      exact dealt.apart j k block left right
  · exact (splits.kept block).trans (exists_update fun own => own.kept block).symm
  · exact (splits.live block).trans (exists_update fun own => own.live block).symm
  · exact (splits.writable block).trans (exists_update fun own => own.writable block).symm
  · rw [← Finset.add_sum_erase Finset.univ _ (Finset.mem_univ i), Function.update_self]
    refine Nat.le_trans (Nat.le_of_eq
      (congrArg (later.room + ·) (Finset.sum_congr rfl fun j member => ?_))) splits.room
    rw [Function.update_of_ne (Finset.ne_of_mem_erase member)]

end Dealt

end Shares

end EverDb
