import EverDb.Txn.Sound

/-!
# The part of the bookkeeping that copy on write needs

`Ledger.Working` is what the allocator relies on while a transaction is open: free
blocks are distinct, in range and without a state. It says nothing about who owns the
other blocks, so it also holds where a client has copied a block that a list still
names.
-/

namespace EverDb

open Foundation

namespace Ledger

/-- The freelist and the table of an open transaction are in order. -/
structure Working (base : Books) (l : Ledger) : Prop where
  user : 4 ≤ base.nblocks
  grown : base.nblocks ≤ l.nblocks
  bounded : l.nblocks < 1048576
  wf : l.table.Wf
  keys : ∀ entry ∈ l.table.items, entry.1 < l.nblocks
  root : l.table.get 2 = 1
  objlist : l.objlist ≠ 2 ∧ l.objlist < l.nblocks ∧ l.objlist ∉ l.free
  free : ∀ block ∈ l.free, 4 ≤ block ∧ block < l.nblocks ∧ l.table.get block = 0
  distinct : l.free.Nodup

/-- A block that somebody uses. -/
structure Used (l : Ledger) (block : Nat) : Prop where
  user : 4 ≤ block
  inside : block < l.nblocks
  taken : block ∉ l.free
  kept : l.table.get block ≠ freed

variable {others : List Nat} {base : Books} {c : Client} {l : Ledger} {block : Nat}

/-- The invariant of the bookkeeping includes it. -/
theorem Sound.working (sound : l.Sound others base c) : l.Working base := by
  have user := sound.begun.user
  have grown := sound.grown
  have outside : ∀ other, other ∈ l.free → 4 ≤ other ∧ other < l.nblocks ∧
      l.table.get other = 0 := by
    intro other free
    have inside := sound.range other (by simp [free])
    exact ⟨inside.1, inside.2, sound.idle other (.inl free)⟩
  refine ⟨user, grown, sound.bounded, sound.table.wf, fun entry member =>
    (sound.table.keys entry member).2, sound.table.root, ?_, outside, ?_⟩
  · rcases sound.table.objlist with primary | ⟨low, state⟩
    · rw [primary]
      exact ⟨by decide, by omega, fun free => by have := (outside 3 free).1; omega⟩
    · refine ⟨by omega, (sound.table.key l.objlist (by omega)).2, fun free => ?_⟩
      have zero := (outside l.objlist free).2.2
      omega
  · have nodup := sound.partition.nodup
    simp only [List.append_assoc] at nodup
    exact (List.nodup_append.mp nodup).1

/-- A block in use is not the one that is taken. -/
theorem Used.apart_of_taken (used : l.Used block) {after : Ledger} {new : Nat}
    (taken : Taken l after new) :
    block ≠ new := by
  rintro rfl
  rcases taken.fresh with free | ⟨low, _⟩
  · exact used.taken free
  · have := used.inside
    omega

namespace Working

/-- A block beyond the file has no state. -/
theorem beyond (working : l.Working base) (high : l.nblocks ≤ block) : l.table.get block = 0 := by
  by_contra bound
  have inside := working.keys _ (MemHash.key_of_get working.wf bound)
  simp only at inside
  omega

theorem few (working : l.Working base) : l.table.items.length < maxKeys := by
  have counted := working.wf.length_le working.keys
  have bounded := working.bounded
  simp only [maxKeys]
  omega

/-- A block that was taken was free or beyond the file. -/
theorem taken_range (working : l.Working base) {after : Ledger} (taken : Taken l after block) :
    4 ≤ block ∧ block < after.nblocks ∧ block ∉ after.free ∧ l.table.get block = 0 := by
  have user := working.user
  have grown := working.grown
  have more := taken.grown
  have counted := taken.counted block
  rw [if_pos rfl] at counted
  have once := List.nodup_iff_count_le_one.mp working.distinct block
  rcases taken.fresh with free | ⟨low, high⟩
  · have inside := working.free block free
    refine ⟨inside.1, by omega, ?_, inside.2.2⟩
    rw [if_neg (by omega)] at counted
    exact List.count_eq_zero.mp (by omega)
  · refine ⟨by omega, high, ?_, working.beyond low⟩
    have absent : l.free.count block = 0 :=
      List.count_eq_zero.mpr fun free => by have := (working.free block free).2.1; omega
    rw [if_pos ⟨low, high⟩] at counted
    exact List.count_eq_zero.mp (by omega)

theorem taken_effect (working : l.Working base) {mid : Ledger}
    (taken : Taken l mid block) (state : Nat) :
    ∃ after, TableSet l.table after block state ∧
    mid.set block state = { mid with table := after } := by
  have range := working.taken_range taken
  obtain ⟨after, effect⟩ := working.wf.set_effect (k := block) (by omega) working.few state
  exact ⟨after, effect, by simp [set, taken.table, effect.ran]⟩

/-- The blocks on the freelist after one was taken were there before, or are beyond
the file. -/
theorem free_after (working : l.Working base) {after : Ledger}
    (taken : Taken l after block) {other : Nat} (free : other ∈ after.free) :
    other ≠ block ∧ (other ∈ l.free ∨ l.nblocks ≤ other) ∧ other < after.nblocks := by
  have range := working.taken_range taken
  have apart : other ≠ block := fun same => range.2.2.1 (same ▸ free)
  have counted := taken.counted other
  rw [if_neg apart] at counted
  have positive := List.one_le_count_iff.mpr free
  have more := taken.grown
  refine ⟨apart, ?_⟩
  by_cases old : other ∈ l.free
  · have := (working.free other old).2.1
    exact ⟨.inl old, by omega⟩
  · have absent := List.count_eq_zero.mpr old
    split at counted
    · rename_i within
      exact ⟨.inr within.1, within.2⟩
    · omega

/-- A copy leaves the bookkeeping in order, and every block in use as it was. -/
theorem copied (working : l.Working base) {mid : Ledger} (taken : Taken l mid block)
    {table : MemHash} {source : Nat} (effect : TableSet l.table table block source) :
    ({ mid with table := table } : Ledger).Working base ∧
      ∀ other, l.Used other → ({ mid with table := table } : Ledger).Used other ∧
        table.get other = l.table.get other := by
  have range := working.taken_range taken
  have more := taken.grown
  have grown := working.grown
  refine ⟨⟨working.user, by exact Nat.le_trans grown more, taken.bounded, effect.wf, ?_, ?_,
    ?_, ?_, ?_⟩, ?_⟩
  · intro entry member
    rcases effect.keys entry member with same | ⟨old, there, same⟩
    · exact same ▸ range.2.1
    · rw [← same]
      exact Nat.lt_of_lt_of_le (working.keys old there) more
  · rw [effect.get, if_neg (by omega), working.root]
  · obtain ⟨notRoot, inside, notFree⟩ := working.objlist
    refine ⟨by rw [taken.objlist]; exact notRoot, by
      rw [taken.objlist]; exact Nat.lt_of_lt_of_le inside more, ?_⟩
    rw [taken.objlist]
    intro free
    rcases (working.free_after taken free).2.1 with old | beyond
    · exact notFree old
    · omega
  · intro other free
    obtain ⟨apart, old, inside⟩ := working.free_after taken free
    have user := working.user
    rcases old with old | beyond
    · refine ⟨(working.free other old).1, inside, ?_⟩
      rw [effect.get, if_neg apart]
      exact (working.free other old).2.2
    · refine ⟨by omega, inside, ?_⟩
      rw [effect.get, if_neg apart]
      exact working.beyond beyond
  · refine List.nodup_iff_count_le_one.mpr fun other => ?_
    have counted := taken.counted other
    have once := List.nodup_iff_count_le_one.mp working.distinct other
    have low : l.free.count other = 0 ∨ other < l.nblocks := by
      by_cases free : other ∈ l.free
      · exact .inr (working.free other free).2.1
      · exact .inl (List.count_eq_zero.mpr free)
    change mid.free.count other ≤ 1
    split at counted <;> split at counted <;> omega
  · intro other used
    have apart := used.apart_of_taken taken
    have same : table.get other = l.table.get other := by rw [effect.get, if_neg apart]
    refine ⟨⟨used.user, Nat.lt_of_lt_of_le used.inside more, ?_, ?_⟩, same⟩
    · intro free
      rcases (working.free_after taken free).2.1 with old | beyond
      · exact used.taken old
      · have := used.inside
        omega
    · change table.get other ≠ freed
      rw [same]
      exact used.kept

/-- The state of a block outside the freelist changes. -/
theorem set (working : l.Working base) {table : MemHash} {state : Nat}
    (effect : TableSet l.table table block state) (user : 4 ≤ block) (inside : block < l.nblocks)
    (taken : block ∉ l.free) : ({ l with table := table } : Ledger).Working base := by
  refine ⟨working.user, working.grown, working.bounded, effect.wf, ?_, ?_, working.objlist, ?_,
    working.distinct⟩
  · intro entry member
    rcases effect.keys entry member with same | ⟨old, there, same⟩
    · exact same ▸ inside
    · rw [← same]
      exact working.keys old there
  · rw [effect.get, if_neg (by omega), working.root]
  · intro other free
    have apart : other ≠ block := fun same => taken (same ▸ free)
    rw [effect.get, if_neg apart]
    exact working.free other free

/-- A block without a state joins the freelist. -/
theorem giveBack (working : l.Working base) (user : 4 ≤ block) (inside : block < l.nblocks)
    (taken : block ∉ l.free) (idle : l.table.get block = 0) (apart : block ≠ l.objlist) :
    (l.giveBack block).Working base := by
  obtain ⟨notRoot, within, notFree⟩ := working.objlist
  refine ⟨working.user, working.grown, working.bounded, working.wf, working.keys, working.root,
    ⟨notRoot, within, ?_⟩, ?_, ?_⟩
  · intro member
    rcases List.mem_append.mp member with old | new
    · exact notFree old
    · exact apart (List.mem_singleton.mp new).symm
  · intro other member
    rcases List.mem_append.mp member with old | new
    · exact working.free other old
    · rw [List.mem_singleton.mp new]
      exact ⟨user, inside, idle⟩
  · refine List.nodup_append.mpr ⟨working.distinct, List.nodup_singleton block, ?_⟩
    rintro other old last new rfl
    exact taken (List.mem_singleton.mp new ▸ old)

end Working

/-- Taking one block leaves room for the others. -/
theorem takesFit_take {count : Nat} (fits : takesFit (count + 1) l.free.length l.nblocks) :
    takesFit 1 l.free.length l.nblocks ∧ takesFit count l.take.2.free.length l.take.2.nblocks := by
  rcases List.eq_nil_or_concat' l.free with none | ⟨rest, last, split⟩
  · rw [none] at fits ⊢
    refine ⟨⟨fits.1, trivial⟩, ?_⟩
    simpa [take, none] using fits.2
  · have length : l.free.length = rest.length + 1 := by simp [split]
    rw [length] at fits ⊢
    refine ⟨trivial, ?_⟩
    change takesFit count rest.length l.nblocks at fits
    simpa [take, split] using fits

end Ledger

/-- Room for more blocks is room for fewer. -/
theorem takesFit_less {count length nblocks : Nat} (fits : takesFit (count + 1) length nblocks) :
    takesFit count length nblocks := by
  induction count generalizing length nblocks with
  | zero => trivial
  | succ count ih =>
      cases length with
      | zero => exact ⟨fits.1, ih fits.2⟩
      | succ length => exact ih fits

end EverDb
