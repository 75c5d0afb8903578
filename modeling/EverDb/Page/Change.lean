import EverDb.Block.Committed
import EverDb.Page.Table

/-!
# Changes of a page table

What a change of a page table leaves alone, and the elementary changes: a fresh
block is added, an index block replaced by its copy, a block freed, the table's own
blocks written.
-/

namespace EverDb

open Foundation

variable {ρ : Type} {api : BlockApi (Db ρ)} {contract : BlockContract api} {own : Ownership}
  {db : Db ρ} {root limit : Nat} {blocks indexes : List Nat}

/-- What a change of a page table leaves alone: `root` and the old and new blocks
are given, everything else is as it was. -/
structure TableChange (own later : Ownership) (db after : Db ρ) (root limit : Nat)
    (blocks indexes blocks' indexes' : List Nat) : Prop where
  /-- Blocks the table did not have are fresh. -/
  fresh : ∀ block ∈ blocks' ++ indexes', block ∈ blocks ++ indexes ∨ ¬own.kept block
  kept : ∀ other, own.kept other → other ≠ root → other ∉ indexes →
    (other ∈ blocks → other ∈ blocks') → later.kept other
  same : ∀ other, own.kept other → other ≠ root → other ∉ indexes →
    (other ∈ blocks → other ∈ blocks') → after.data other = db.data other
  live : ∀ other, own.kept other → other ≠ root → other ∉ indexes →
    (other ∈ blocks → other ∈ blocks') → (later.live other ↔ own.live other)
  writable : ∀ other, own.kept other → other ≠ root → other ∉ indexes →
    (other ∈ blocks → other ∈ blocks') → (later.writable other ↔ own.writable other)
  /-- The bytes of the root between the table's words and `nblocks`. -/
  header : ∀ offset, 4 * (512 + limit) ≤ offset → offset < 4092 →
    after.data root offset = db.data root offset
  /-- Without copies, blocks only move between the table and the allocator. -/
  conserved : (∀ block ∈ blocks ++ indexes, own.writable block) →
    (∀ block ∈ blocks' ++ indexes', later.writable block) ∧
      later.room + blocks'.length + indexes'.length = own.room + blocks.length + indexes.length

namespace HeldTable

/-- The blocks and index blocks of a held table are kept. -/
theorem kept (held : HeldTable contract own db root limit blocks indexes) {block : Nat}
    (member : block ∈ blocks ++ indexes) : own.kept block := by
  have wf := contract.wf held.valid
  exact wf.usable_kept _ (wf.live_usable _ (held.live block member))

/-- The root of a held table is kept. -/
theorem root_kept (held : HeldTable contract own db root limit blocks indexes) : own.kept root := by
  have wf := contract.wf held.valid
  exact wf.usable_kept _ (wf.live_usable _ (wf.writable_live _ held.writable))

/-- The root is none of the blocks in its table. -/
theorem root_not_mem (held : HeldTable contract own db root limit blocks indexes) :
    root ∉ blocks ++ indexes := (List.nodup_cons.mp held.distinct).1

/-- A fresh block is not in the table. -/
theorem not_mem_of_fresh (held : HeldTable contract own db root limit blocks indexes) {new : Nat}
    (fresh : ¬own.kept new) : new ∉ root :: (blocks ++ indexes) := by
  intro member
  rcases List.mem_cons.mp member with rfl | old
  · exact fresh held.root_kept
  · exact fresh (held.kept old)

end HeldTable

/-- A list up to its last element. -/
theorem take_append_last {place last : Nat} (size : indexes.length = place + 1)
    (found : indexes[place]? = some last) : indexes.take place ++ [last] = indexes := by
  obtain ⟨inside, here⟩ := List.getElem?_eq_some_iff.mp found
  rw [← here, List.take_append_getElem, List.take_of_length_le (by omega)]

/-- The last index block is not among those before it. -/
theorem not_mem_before_last {place last : Nat} (distinct : (root :: (blocks ++ indexes)).Nodup)
    (size : indexes.length = place + 1) (found : indexes[place]? = some last) :
    last ∉ blocks ++ indexes.take place := by
  rw [← take_append_last size found, ← List.append_assoc] at distinct
  intro member
  exact (List.nodup_append.mp (List.nodup_cons.mp distinct).2).2.2 last member last (by simp) rfl

/-- A new data block keeps the blocks of a table apart. -/
theorem nodup_append_block {new : Nat} :
    (root :: (blocks ++ [new] ++ indexes)).Nodup ↔
      new ∉ root :: (blocks ++ indexes) ∧ (root :: (blocks ++ indexes)).Nodup := by
  have moved :
      (root :: (blocks ++ [new] ++ indexes)).Perm (new :: root :: (blocks ++ indexes)) := by
    rw [List.append_assoc, List.singleton_append]
    exact (List.Perm.cons root List.perm_middle).trans (List.Perm.swap _ _ _)
  rw [moved.nodup_iff, List.nodup_cons]

/-- A new index block keeps the blocks of a table apart. -/
theorem nodup_append_index {new : Nat} :
    (root :: (blocks ++ (indexes ++ [new]))).Nodup ↔
      new ∉ root :: (blocks ++ indexes) ∧ (root :: (blocks ++ indexes)).Nodup := by
  have moved :
      (root :: (blocks ++ (indexes ++ [new]))).Perm (new :: root :: (blocks ++ indexes)) := by
    rw [← List.append_assoc, ← List.cons_append]
    exact List.perm_append_singleton _ _
  rw [moved.nodup_iff, List.nodup_cons]

/-- A table that has not been changed yet. -/
theorem TableChange.refl (own : Ownership) (db : Db ρ) (root limit : Nat)
    (blocks indexes : List Nat) :
    TableChange own own db db root limit blocks indexes blocks indexes where
  fresh := fun _ member => .inl member
  kept := fun _ kept _ _ _ => kept
  same := fun _ _ _ _ _ => rfl
  live := fun _ _ _ _ _ => Iff.rfl
  writable := fun _ _ _ _ _ => Iff.rfl
  header := fun _ _ _ => rfl
  conserved := fun all => ⟨all, rfl⟩

/-- One change after another, when no block the first one removes comes back. -/
theorem TableChange.trans {middle later : Ownership} {between after : Db ρ}
    {blocks₁ indexes₁ blocks₂ indexes₂ : List Nat}
    (first : TableChange own middle db between root limit blocks indexes blocks₁ indexes₁)
    (second : TableChange middle later between after root limit blocks₁ indexes₁ blocks₂ indexes₂)
    (distinct : (root :: (blocks₁ ++ indexes₁)).Nodup)
    (distinctAfter : (root :: (blocks₂ ++ indexes₂)).Nodup)
    (stays : ∀ block ∈ blocks, block ∈ blocks₂ → block ∈ blocks₁) :
    TableChange own later db after root limit blocks indexes blocks₂ indexes₂ := by
  obtain ⟨_, apart⟩ := List.nodup_cons.mp distinct
  have disjoint := (List.nodup_append.mp apart).2.2
  -- what the whole change leaves alone, each half leaves alone
  have outer : ∀ other, other ∉ indexes → (other ∈ blocks → other ∈ blocks₂) →
      other ∈ blocks → other ∈ blocks₁ :=
    fun other _ back member => stays other member (back member)
  have inner : ∀ other, own.kept other → other ∉ indexes → (other ∈ blocks → other ∈ blocks₂) →
      other ∉ indexes₁ ∧ (other ∈ blocks₁ → other ∈ blocks₂) := by
    intro other kept notIndex back
    constructor
    · intro member
      rcases first.fresh other (by simp [member]) with old | fresh
      · rcases List.mem_append.mp old with inBlocks | inIndexes
        · exact disjoint other (outer other notIndex back inBlocks) other member rfl
        · exact notIndex inIndexes
      · exact fresh kept
    · intro member
      rcases first.fresh other (by simp [member]) with old | fresh
      · rcases List.mem_append.mp old with inBlocks | inIndexes
        · exact back inBlocks
        · exact absurd inIndexes notIndex
      · exact absurd kept fresh
  refine ⟨?_, ?_, ?_, ?_, ?_, ?_, ?_⟩
  · intro block member
    by_cases kept : own.kept block
    · rcases second.fresh block member with old | fresh
      · exact first.fresh block old
      · by_contra gone
        simp only [List.mem_append, not_or, not_not] at gone
        obtain ⟨⟨notBlock, notIndex⟩, _⟩ := gone
        have notRoot : block ≠ root := by
          rintro rfl
          exact (List.nodup_cons.mp distinctAfter).1 member
        exact fresh (first.kept block kept notRoot notIndex fun inside => absurd inside notBlock)
    · exact .inr kept
  · intro other kept apart notIndex back
    obtain ⟨notIndex₁, back₁⟩ := inner other kept notIndex back
    exact second.kept other (first.kept other kept apart notIndex (outer other notIndex back))
      apart notIndex₁ back₁
  · intro other kept apart notIndex back
    obtain ⟨notIndex₁, back₁⟩ := inner other kept notIndex back
    rw [second.same other (first.kept other kept apart notIndex (outer other notIndex back))
      apart notIndex₁ back₁, first.same other kept apart notIndex (outer other notIndex back)]
  · intro other kept apart notIndex back
    obtain ⟨notIndex₁, back₁⟩ := inner other kept notIndex back
    rw [second.live other (first.kept other kept apart notIndex (outer other notIndex back))
      apart notIndex₁ back₁, first.live other kept apart notIndex (outer other notIndex back)]
  · intro other kept apart notIndex back
    obtain ⟨notIndex₁, back₁⟩ := inner other kept notIndex back
    rw [second.writable other (first.kept other kept apart notIndex (outer other notIndex back))
      apart notIndex₁ back₁, first.writable other kept apart notIndex (outer other notIndex back)]
  · intro offset low high
    rw [second.header offset low high, first.header offset low high]
  · intro all
    obtain ⟨allMiddle, middleRoom⟩ := first.conserved all
    obtain ⟨allLater, laterRoom⟩ := second.conserved allMiddle
    exact ⟨allLater, laterRoom.trans middleRoom⟩

/-- Writing to the root and the index blocks only. -/
theorem TableChange.writes {after : Db ρ}
    (same : ∀ other, other ≠ root → other ∉ indexes → after.data other = db.data other)
    (header : ∀ offset, 4 * (512 + limit) ≤ offset → offset < 4092 →
      after.data root offset = db.data root offset) :
    TableChange own own db after root limit blocks indexes blocks indexes where
  fresh := fun _ member => .inl member
  kept := fun _ kept _ _ _ => kept
  same := fun other _ notRoot notIndex _ => same other notRoot notIndex
  live := fun _ _ _ _ _ => Iff.rfl
  writable := fun _ _ _ _ _ => Iff.rfl
  header := header
  conserved := fun all => ⟨all, rfl⟩

/-- Adding a fresh data block, when only the root and index blocks are written. -/
theorem TableChange.append {after : Db ρ} {new : Nat} (fresh : ¬own.kept new) (room : 0 < own.room)
    (same : ∀ other, own.kept other → other ≠ root → other ∉ indexes →
      after.data other = db.data other)
    (header : ∀ offset, 4 * (512 + limit) ≤ offset → offset < 4092 →
      after.data root offset = db.data root offset) :
    TableChange own (own.taken new) db after root limit blocks indexes
      (blocks ++ [new]) indexes where
  fresh := by
    intro block member
    simp only [List.mem_append, List.mem_singleton] at member ⊢
    rcases member with (old | rfl) | old
    · exact .inl (.inl old)
    · exact .inr fresh
    · exact .inl (.inr old)
  kept := fun other kept _ _ _ => .inl kept
  same := fun other kept apart notIndex _ => same other kept apart notIndex
  live := fun other kept _ _ _ => or_iff_left fun here => fresh (here ▸ kept)
  writable := fun other kept _ _ _ => or_iff_left fun here => fresh (here ▸ kept)
  header := header
  conserved := by
    intro all
    constructor
    · intro block member
      simp only [List.mem_append, List.mem_singleton] at member
      rcases member with (old | here) | old
      · exact .inl (all block (by simp [old]))
      · exact .inr here
      · exact .inl (all block (by simp [old]))
    · simp only [Ownership.taken, List.length_append, List.length_singleton]
      omega

/-- Adding a fresh index block, when nothing of the table is written. -/
theorem TableChange.appendIndex {after : Db ρ} {new : Nat} (fresh : ¬own.kept new)
    (room : 0 < own.room) (rootKept : own.kept root)
    (same : ∀ other, own.kept other → after.data other = db.data other) :
    TableChange own (own.taken new) db after root limit blocks indexes blocks
      (indexes ++ [new]) where
  fresh := by
    intro block member
    rw [← List.append_assoc, List.mem_append, List.mem_singleton] at member
    rcases member with old | rfl
    · exact .inl old
    · exact .inr fresh
  kept := fun other kept _ _ _ => .inl kept
  same := fun other kept _ _ _ => same other kept
  live := fun other kept _ _ _ => or_iff_left fun here => fresh (here ▸ kept)
  writable := fun other kept _ _ _ => or_iff_left fun here => fresh (here ▸ kept)
  header := fun offset _ _ => by rw [same root rootKept]
  conserved := by
    intro all
    constructor
    · intro block member
      rw [← List.append_assoc, List.mem_append, List.mem_singleton] at member
      exact member.imp (all block) id
    · simp only [Ownership.taken, List.length_append, List.length_singleton]
      omega

/-- Replacing the last index block by its copy. -/
theorem TableChange.copyIndex {after : Db ρ} {old copy place : Nat} (fresh : ¬own.kept copy)
    (committed : ¬own.writable old) (member : old ∈ indexes) (rootKept : own.kept root)
    (same : ∀ other, own.kept other → after.data other = db.data other) :
    TableChange own (own.copied old copy) db after root limit blocks indexes blocks
      (indexes.take place ++ [copy]) where
  fresh := by
    intro block inside
    simp only [List.mem_append, List.mem_singleton] at inside ⊢
    rcases inside with inBlocks | inIndexes | rfl
    · exact .inl (.inl inBlocks)
    · exact .inl (.inr (List.mem_of_mem_take inIndexes))
    · exact .inr fresh
  kept := fun other kept _ _ _ => .inl kept
  same := fun other kept _ _ _ => same other kept
  live := by
    intro other kept _ notIndex _
    have notCopy : other ≠ copy := fun here => fresh (here ▸ kept)
    have notOld : other ≠ old := fun here => notIndex (here ▸ member)
    simp [Ownership.copied, notCopy, notOld]
  writable := fun other kept _ _ _ => or_iff_left fun here => fresh (here ▸ kept)
  header := fun offset _ _ => by rw [same root rootKept]
  conserved := fun all => absurd (all old (List.mem_append_right _ member)) committed

/-- Freeing the last data block. -/
theorem TableChange.freeBlock {after : Db ρ} {old : Nat}
    (distinct : (root :: (blocks ++ [old] ++ indexes)).Nodup) (rootKept : own.kept root)
    (same : ∀ other, own.kept other → after.data other = db.data other) :
    TableChange own (own.freed old) db after root limit (blocks ++ [old])
      indexes blocks indexes := by
  obtain ⟨absent, _⟩ := nodup_append_block.mp distinct
  have notBlock : old ∉ blocks := fun member => absent (by simp [member])
  have notOld : ∀ other, (other ∈ blocks ++ [old] → other ∈ blocks) → other ≠ old := by
    rintro other back rfl
    exact notBlock (back (by simp))
  refine ⟨?_, ?_, fun other kept _ _ _ => same other kept, ?_, ?_, ?_, ?_⟩
  · intro block member
    left
    simp only [List.mem_append] at member ⊢
    exact member.imp_left .inl
  · exact fun other kept _ _ back => ⟨kept, fun here => notOld other back here.2⟩
  · exact fun other _ _ _ back => and_iff_left (notOld other back)
  · exact fun other _ _ _ back => and_iff_left (notOld other back)
  · exact fun offset _ _ => by rw [same root rootKept]
  · intro all
    constructor
    · intro block member
      refine ⟨all block ?_, ?_⟩
      · simp only [List.mem_append] at member ⊢
        exact member.imp_left .inl
      · rintro rfl
        exact absent (List.mem_cons_of_mem _ member)
    · have writable := all old (by simp)
      simp only [Ownership.freed, writable, if_true, List.length_append, List.length_singleton]
      omega

/-- Freeing the last index block. -/
theorem TableChange.freeIndex {after : Db ρ} {old : Nat}
    (distinct : (root :: (blocks ++ (indexes ++ [old]))).Nodup) (rootKept : own.kept root)
    (same : ∀ other, own.kept other → after.data other = db.data other) :
    TableChange own (own.freed old) db after root limit blocks
      (indexes ++ [old]) blocks indexes := by
  have notOld : ∀ other, other ∉ indexes ++ [old] → other ≠ old := by
    rintro other notIndex rfl
    exact notIndex (by simp)
  refine ⟨?_, ?_, fun other kept _ _ _ => same other kept, ?_, ?_, ?_, ?_⟩
  · intro block member
    left
    simp only [List.mem_append] at member ⊢
    exact member.imp_right .inl
  · exact fun other kept _ notIndex _ => ⟨kept, fun here => notOld other notIndex here.2⟩
  · exact fun other _ _ notIndex _ => and_iff_left (notOld other notIndex)
  · exact fun other _ _ notIndex _ => and_iff_left (notOld other notIndex)
  · exact fun offset _ _ => by rw [same root rootKept]
  · intro all
    obtain ⟨absent, _⟩ := nodup_append_index.mp distinct
    constructor
    · intro block member
      refine ⟨all block ?_, ?_⟩
      · simp only [List.mem_append] at member ⊢
        exact member.imp_right .inl
      · rintro rfl
        exact absent (List.mem_cons_of_mem _ member)
    · have writable := all old (by simp)
      simp only [Ownership.freed, writable, if_true, List.length_append, List.length_singleton]
      omega

/-- Where index blocks come from: each is the one that was there, as writable as
before, or stands at a touched place for one that was committed. -/
def IndexOrigin (own later : Ownership) (touched : Nat → Prop)
    (indexes indexes' : List Nat) : Prop :=
  ∀ j index, indexes'[j]? = some index →
    (indexes[j]? = some index ∧ (later.writable index ↔ own.writable index)) ∨
    (later.writable index ∧ touched j ∧
      ∃ before, indexes[j]? = some before ∧ ¬own.writable before)

/-- Index blocks that have not been replaced yet. -/
theorem IndexOrigin.refl (own : Ownership) (touched : Nat → Prop) (indexes : List Nat) :
    IndexOrigin own own touched indexes indexes :=
  fun _ _ here => .inl ⟨here, Iff.rfl⟩

/-- One change after another. -/
theorem IndexOrigin.trans {middle later : Ownership} {earlier touched all : Nat → Prop}
    {indexes₁ indexes₂ : List Nat} (first : IndexOrigin own middle earlier indexes indexes₁)
    (second : IndexOrigin middle later touched indexes₁ indexes₂) (left : ∀ j, earlier j → all j)
    (right : ∀ j, touched j → all j) : IndexOrigin own later all indexes indexes₂ := by
  intro j index here
  rcases second j index here with ⟨between, same⟩ | ⟨writable, there, before, between, committed⟩
  · rcases first j index between with ⟨start, sameBefore⟩ | ⟨writable, there, others⟩
    · exact .inl ⟨start, same.trans sameBefore⟩
    · exact .inr ⟨same.mpr writable, left j there, others⟩
  · rcases first j before between with ⟨start, same⟩ | ⟨writableBefore, _, _⟩
    · exact .inr ⟨writable, right j there, before, start, fun early => committed (same.mpr early)⟩
    · exact absurd writableBefore committed

end EverDb
