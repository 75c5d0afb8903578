import EverDb.Txn.Ledger

/-!
# The invariant of the bookkeeping

Every block above the reserved ones has one owner: the freelist, the client, an
object, the working copy of the object list, or nobody until the transaction ends.
The last group is what the block table releases at commit.
-/

namespace EverDb

open Foundation

/-- What a client of the block functions knows: the blocks it holds, the ones it
may write, the ones it held at begin, and those it has freed or superseded since. -/
structure Client where
  held : List Nat
  written : List Nat
  saved : List Nat
  retired : List Nat
deriving DecidableEq, Repr

/-- How often a number occurs once another is put in front. -/
theorem count_cons_eq (block other : Nat) (blocks : List Nat) :
    (block :: blocks).count other = blocks.count other + if other = block then 1 else 0 := by
  rw [List.count_cons]
  by_cases same : other = block
  · rw [if_pos same, if_pos (by simp [same])]
  · rw [if_neg same, if_neg (by simpa using Ne.symm same)]

/-- How often a number occurs once another is struck out. -/
theorem count_erase_eq (block other : Nat) (blocks : List Nat) :
    (blocks.erase block).count other = blocks.count other - if other = block then 1 else 0 := by
  rw [List.count_erase]
  by_cases same : other = block
  · rw [if_pos same, if_pos (by simp [same])]
  · rw [if_neg same, if_neg (by simpa using Ne.symm same)]

namespace Client

/-- A block that was live at begin joins the retired ones. -/
def retire (c : Client) (block : Nat) : List Nat :=
  if block ∈ c.saved then block :: c.retired else c.retired

/-- The client behind `edb_txn_begin`: what it holds is saved. -/
def begun (c : Client) : Client := ⟨c.held, [], c.held, []⟩

/-- The client behind an allocation of `block`. -/
def took (c : Client) (block : Nat) : Client :=
  { c with held := block :: c.held, written := block :: c.written }

/-- The client behind a modification of `block` that answered `new`. -/
def moved (c : Client) (block new : Nat) : Client :=
  if new = block then c
  else { c with
    held := new :: c.held.erase block
    written := new :: c.written
    retired := c.retire block }

/-- The client behind a free of `block`. -/
def gave (c : Client) (block : Nat) : Client :=
  { c with
    held := c.held.erase block
    written := c.written.filter (· ≠ block)
    retired := c.retire block }

/-- The client behind `edb_txn_commit`. -/
def committed (c : Client) : Client := ⟨c.held, [], c.held, []⟩

/-- The client behind `edb_txn_abort`: it holds what was saved. -/
def aborted (c : Client) : Client := ⟨c.saved, [], c.saved, []⟩

end Client

/-- Each block number from `EDB_USER_DATA` up to `nblocks` occurs once, no other
number occurs. -/
def OnceEach (blocks : List Nat) (nblocks : Nat) : Prop :=
  ∀ block, blocks.count block = if edbUserData ≤ block ∧ block < nblocks then 1 else 0

/-- The blocks of a partition are those of the file behind the fixed ones. -/
theorem OnceEach.range {blocks : List Nat} {nblocks : Nat} (each : OnceEach blocks nblocks)
    (block : Nat) (member : block ∈ blocks) : 4 ≤ block ∧ block < nblocks := by
  have counted := each block
  have positive := List.one_le_count_iff.mpr member
  split at counted
  · assumption
  · omega

/-- No block occurs twice in a partition. -/
theorem OnceEach.nodup {blocks : List Nat} {nblocks : Nat} (each : OnceEach blocks nblocks) :
    blocks.Nodup := by
  rw [List.nodup_iff_count_le_one]
  intro block
  have counted := each block
  split at counted <;> omega

/-- The states of a block table. -/
structure TableSound (t : MemHash) (nblocks objlist : Nat) : Prop where
  wf : t.Wf
  keys : ∀ entry ∈ t.items, (entry.1 = 2 ∨ 4 ≤ entry.1) ∧ entry.1 < nblocks
  states : ∀ block, t.get block = allocated ∨ t.get block = freed ∨ t.get block < nblocks
  root : t.get 2 = 1
  reserved : ∀ block, 0 < t.get block → t.get block < 4 → block = 2 ∨ block = objlist
  objlist : objlist = 3 ∨ 4 ≤ objlist ∧ t.get objlist = 3
  /-- A block that a copy supersedes has no state of its own. -/
  sources : ∀ block, t.get block < nblocks → t.get (t.get block) = 0

namespace TableSound

variable {t after : MemHash} {nblocks objlist objlist' block state : Nat}

/-- A key of a sound table is the freelist root or a block of the file. -/
theorem key (sound : TableSound t nblocks objlist) (block : Nat) (bound : t.get block ≠ 0) :
    (block = 2 ∨ 4 ≤ block) ∧ block < nblocks :=
  sound.keys _ (MemHash.key_of_get sound.wf bound)

/-- A sound table has few entries. -/
theorem few (sound : TableSound t nblocks objlist) (small : nblocks < 1048576) :
    t.items.length < maxKeys := by
  have := sound.wf.length_le fun entry member => (sound.keys entry member).2
  simp only [maxKeys]
  omega

/-- More blocks, the same states. -/
theorem grow (sound : TableSound t nblocks objlist) {larger : Nat} (more : nblocks ≤ larger)
    (small : larger < 1048576) : TableSound t larger objlist := by
  refine ⟨sound.wf, fun entry member => ?_, fun other => ?_, sound.root, sound.reserved,
    sound.objlist, fun other below => ?_⟩
  · have := sound.keys entry member
    omega
  · have := sound.states other
    omega
  · have := sound.states other
    simp only [allocated, freed] at this
    exact sound.sources other (by omega)

/-- Set the state of a block that no copy supersedes. -/
theorem set (sound : TableSound t nblocks objlist) (effect : TableSet t after block state)
    (small : nblocks < 1048576) (user : 4 ≤ block) (inside : block < nblocks)
    (valid : state = allocated ∨ state = freed ∨
      state < nblocks ∧ state ≠ block ∧ t.get state = 0)
    (low : 0 < state → state < 4 → block = objlist')
    (opened : objlist' = objlist ∧ block ≠ objlist ∨ objlist = 3 ∧ objlist' = block ∧ state = 3)
    (unsourced : ∀ other, other ≠ block → t.get other = block → state = 0) :
    TableSound after nblocks objlist' := by
  refine ⟨effect.wf, ?_, ?_, ?_, ?_, ?_, ?_⟩
  · intro entry member
    rcases effect.keys entry member with same | ⟨old, there, same⟩
    · omega
    · rw [← same]
      exact sound.keys old there
  · intro other
    rw [effect.get]
    split
    · rcases valid with h | h | h
      · exact .inl h
      · exact .inr (.inl h)
      · exact .inr (.inr h.1)
    · exact sound.states other
  · rw [effect.get, if_neg (by omega), sound.root]
  · intro other positive below
    rw [effect.get] at positive below
    split at positive
    · rename_i same
      rw [if_pos same] at below
      exact .inr (same.trans (low positive below))
    · rename_i apart
      rw [if_neg apart] at below
      rcases sound.reserved other positive below with h | h
      · exact .inl h
      · rcases opened with ⟨same, _⟩ | ⟨old, _, _⟩
        · exact .inr (h.trans same.symm)
        · have := sound.key other (by omega)
          omega
  · rcases opened with ⟨same, apart⟩ | ⟨_, same, there⟩
    · rw [same]
      rcases sound.objlist with h | ⟨h, copy⟩
      · exact .inl h
      · exact .inr ⟨h, by rw [effect.get, if_neg (Ne.symm apart), copy]⟩
    · exact .inr ⟨by omega, by rw [same, effect.get, if_pos rfl, there]⟩
  · intro other below
    rw [effect.get other] at below ⊢
    split
    · rename_i same
      rw [if_pos same] at below
      rcases valid with h | h | ⟨_, apart, zero⟩
      · simp only [allocated] at h
        omega
      · simp only [freed] at h
        omega
      · rw [effect.get, if_neg apart, zero]
    · rename_i apart
      rw [if_neg apart] at below
      rw [effect.get]
      split
      · exact unsourced other apart ‹_›
      · exact sound.sources other below

end TableSound

/-- The lists between transactions. `others` are the blocks in use that neither the
client nor the object list names. -/
structure Books.Sound (others held : List Nat) (books : Books) : Prop where
  user : 4 ≤ books.nblocks
  bounded : books.nblocks < 1048576
  partition : OnceEach (books.free ++ held ++ books.objects ++ others) books.nblocks

/-- The lists of a new file are empty. -/
theorem newBooks_sound : Books.Sound [] [] ⟨4, [], []⟩ := by
  refine ⟨Nat.le_refl _, by decide, fun block => ?_⟩
  have none : ¬(4 ≤ block ∧ block < 4) := by omega
  exact (if_neg none).symm

/-- The lists and the table of an open transaction, and what the client knows. -/
structure Ledger.Sound (others : List Nat) (base : Books) (c : Client) (l : Ledger) : Prop where
  begun : base.Sound others c.saved
  grown : base.nblocks ≤ l.nblocks
  bounded : l.nblocks < 1048576
  table : TableSound l.table l.nblocks l.objlist
  /-- Free blocks have no state. -/
  idle : ∀ block, block ∈ l.free ∨ l.nblocks ≤ block → l.table.get block = 0
  partition :
    OnceEach (l.free ++ c.held ++ l.objects ++ l.workingCopy ++ c.retired ++ others) l.nblocks
  releases : (releases l.table).Perm c.retired
  settled : ∀ block ∈ c.held, l.table.get block = 0 → block ∈ c.saved
  /-- Blocks live at begin are not free and not written. -/
  live : ∀ block ∈ c.saved ++ base.objects ++ others,
    block ∉ l.free ∧ (l.table.get block = 0 ∨ l.table.get block = freed)
  written : ∀ block ∈ c.written, block ∈ c.held ∧ l.table.get block ≠ 0 ∧ l.table.get block ≠ freed

/-- The blocks in use when the transaction began: the roots of the freelist and of
the object list, and the blocks outside the freelist. -/
def LiveAtBegin (others : List Nat) (base : Books) (c : Client) (block : Nat) : Prop :=
  block = edbFreelistPrimary ∨ block = edbObjlist ∨ block ∈ c.saved ++ base.objects ++ others

namespace Ledger

variable {others : List Nat} {base : Books} {c : Client} {l : Ledger} {block : Nat}

/-- What taking a block does. -/
structure Taken (l after : Ledger) (block : Nat) : Prop where
  table : after.table = l.table
  objlist : after.objlist = l.objlist
  objects : after.objects = l.objects
  grown : l.nblocks ≤ after.nblocks
  bounded : after.nblocks < 1048576
  fresh : block ∈ l.free ∨ l.nblocks ≤ block ∧ block < after.nblocks
  counted : ∀ other, after.free.count other + (if other = block then 1 else 0) =
    l.free.count other + if l.nblocks ≤ other ∧ other < after.nblocks then 1 else 0

/-- Taking a block when the growth it may need fits. -/
theorem take_spec (bounded : l.nblocks < 1048576)
    (fits : takesFit 1 l.free.length l.nblocks) : Taken l l.take.2 l.take.1 := by
  rcases List.eq_nil_or_concat' l.free with none | ⟨rest, last, split⟩
  · rw [none] at fits
    have grows := lt_grownBlocks bounded
    have taken : l.take = (l.nblocks,
      { l with
        nblocks := grownBlocks l.nblocks
        free := List.range' (l.nblocks + 1) (grownBlocks l.nblocks - (l.nblocks + 1)) }) := by
      simp [take, none]
    rw [taken]
    refine ⟨rfl, rfl, rfl, Nat.le_of_lt grows, fits.1.2, .inr ⟨Nat.le_refl _, grows⟩, ?_⟩
    intro other
    simp only [none, List.count_nil, List.count_range_1']
    split <;> split <;> split <;> omega
  · have taken : l.take = (last, { l with free := rest }) := by
      simp [take, split]
    rw [taken]
    refine ⟨rfl, rfl, rfl, Nat.le_refl _, bounded, .inl (by simp [split]), ?_⟩
    intro other
    have none : ¬(l.nblocks ≤ other ∧ other < l.nblocks) := by omega
    rw [split, List.count_append, List.count_singleton, if_neg none]
    by_cases same : other = last
    · rw [if_pos same, if_pos (by simp [same]), Nat.add_zero]
    · rw [if_neg same, if_neg (by simpa using Ne.symm same)]

/-- The blocks that a new object needs can be taken. -/
structure CreateFits (l : Ledger) : Prop where
  opens : l.table.get l.objlist = 0 → takesFit 1 l.free.length l.nblocks
  allocates : takesFit 1 l.openObjlist.free.length l.openObjlist.nblocks
  lists : l.objects.length < 1021

/-- Taking two blocks is taking one after the other. -/
theorem takesFit_two (fits : takesFit 2 l.free.length l.nblocks) :
    takesFit 1 l.free.length l.nblocks ∧
      takesFit 1 l.take.2.free.length l.take.2.nblocks := by
  rcases List.eq_nil_or_concat' l.free with none | ⟨rest, last, split⟩
  · rw [none] at fits ⊢
    refine ⟨⟨fits.1, trivial⟩, ?_⟩
    simpa [take, none] using fits.2
  · have length : l.free.length = rest.length + 1 := by simp [split]
    rw [length] at fits ⊢
    refine ⟨trivial, ?_⟩
    change takesFit 1 rest.length l.nblocks at fits
    simpa [take, split] using fits

namespace Sound

/-- A block in one of the lists is a user block below `nblocks`. -/
theorem range (sound : l.Sound others base c) (block : Nat)
    (member : block ∈ l.free ++ c.held ++ l.objects ++ l.workingCopy ++ c.retired ++ others) :
    4 ≤ block ∧ block < l.nblocks :=
  sound.partition.range block member

/-- The blocks that clients and objects refer to. -/
theorem user_range (sound : l.Sound others base c) (block : Nat)
    (member : block ∈ c.held ++ l.objects ++ others) : 4 ≤ block ∧ block < l.nblocks := by
  apply sound.range
  simp only [List.mem_append] at member ⊢
  tauto

/-- A block live at begin is older than the blocks the file has grown by. -/
theorem live_range (sound : l.Sound others base c)
    (member : block ∈ c.saved ++ base.objects ++ others) : 4 ≤ block ∧ block < base.nblocks := by
  apply sound.begun.partition.range
  simp only [List.mem_append] at member ⊢
  tauto

/-- The blocks live at begin keep apart from the freelist root and from the blocks
of this transaction. -/
theorem live_apart (sound : l.Sound others base c) (live : LiveAtBegin others base c block) :
    block ≠ 2 ∧ block < base.nblocks ∧
      ∀ other, 4 ≤ other → l.table.get other ≠ 0 → l.table.get other ≠ freed → block ≠ other := by
  have user := sound.begun.user
  simp only [LiveAtBegin, edbFreelistPrimary, edbObjlist] at live
  rcases live with rfl | rfl | member
  · exact ⟨by decide, by omega, fun other above _ _ => by omega⟩
  · exact ⟨by decide, by omega, fun other above _ _ => by omega⟩
  · have range := sound.live_range member
    refine ⟨by omega, range.2, ?_⟩
    rintro other _ used usable rfl
    exact (sound.live block member).2.elim used usable

/-- A released block is a retired one. -/
theorem retired_of_released (sound : l.Sound others base c) (key : Nat)
    (bound : l.table.get key ≠ 0) (pushed : released (key, l.table.get key) = some block) :
    block ∈ c.retired :=
  sound.releases.mem_iff.mp
    (List.mem_filterMap.mpr ⟨_, MemHash.key_of_get sound.table.wf bound, pushed⟩)

/-- The block behind a copy is retired. -/
theorem source_retired (sound : l.Sound others base c) (key : Nat)
    (user : 4 ≤ l.table.get key) (inside : l.table.get key < l.nblocks) :
    l.table.get key ∈ c.retired := by
  have bounded := sound.bounded
  exact sound.retired_of_released key (by omega) (released_source user (by omega))

/-- A block freed in the transaction is retired. -/
theorem freed_retired (sound : l.Sound others base c) (state : l.table.get block = freed) :
    block ∈ c.retired :=
  sound.retired_of_released block (by rw [state]; decide) (by simp [released, state])

/-- A free block has one place. -/
theorem not_retired_of_free (sound : l.Sound others base c) (free : block ∈ l.free) :
    block ∉ c.retired := by
  intro retired
  have counted := sound.partition block
  have one := List.one_le_count_iff.mpr free
  have two := List.one_le_count_iff.mpr retired
  simp only [List.count_append] at counted
  split at counted <;> omega

/-- The new block of a `Taken` step. -/
theorem taken_range (sound : l.Sound others base c) {after : Ledger} (taken : Taken l after block) :
    4 ≤ block ∧ block < after.nblocks ∧ block ∉ after.free ∧ l.table.get block = 0 := by
  have user := sound.begun.user
  have grown := sound.grown
  have more := taken.grown
  have counted := taken.counted block
  have partition := sound.partition block
  have idle := sound.idle block
  simp only [List.count_append] at partition
  rw [if_pos rfl] at counted
  rcases taken.fresh with free | ⟨low, high⟩
  · have inside := sound.range block (by simp [free])
    refine ⟨inside.1, by omega, ?_, idle (.inl free)⟩
    intro again
    have positive := List.one_le_count_iff.mpr again
    split at counted <;> split at partition <;> omega
  · refine ⟨by omega, high, ?_, idle (.inr low)⟩
    intro again
    have positive := List.one_le_count_iff.mpr again
    split at counted <;> split at partition <;> omega

/-- No copy supersedes a block that was just taken. -/
theorem taken_unsourced (sound : l.Sound others base c) {after : Ledger}
    (taken : Taken l after block) (key : Nat) : l.table.get key ≠ block := by
  intro source
  have range := sound.taken_range taken
  have small := taken.bounded
  have states := sound.table.states key
  simp only [allocated, freed] at states
  have inside : l.table.get key < l.nblocks := by omega
  have retired := sound.source_retired key (by omega) inside
  rw [source] at retired inside
  rcases taken.fresh with free | ⟨low, _⟩
  · exact sound.not_retired_of_free free retired
  · omega

/-- A block is taken and gets a state; the lists gain it once. -/
theorem take_set (sound : l.Sound others base c) (c' : Client) {mid after : Ledger} {state : Nat}
    (taken : Taken l mid block) (effect : TableSet l.table after.table block state)
    (nblocks : after.nblocks = mid.nblocks) (free : after.free = mid.free)
    (saved : c'.saved = c.saved)
    (valid : state = allocated ∨ state < l.nblocks ∧ l.table.get state = 0 ∧ state ≠ block)
    (used : state ≠ 0) (low : state < 4 → block = after.objlist)
    (opened : after.objlist = l.objlist ∨ l.objlist = 3 ∧ after.objlist = block ∧ state = 3)
    (counted : ∀ other, (c'.held ++ after.objects ++ after.workingCopy ++ c'.retired).count other =
      (c.held ++ l.objects ++ l.workingCopy ++ c.retired).count other +
        if other = block then 1 else 0)
    (retired : c'.retired.Perm ((released (block, state)).toList ++ c.retired))
    (held : ∀ other ∈ c'.held, other = block ∨ other ∈ c.held)
    (written : ∀ other ∈ c'.written, other ∈ c'.held ∧ (other = block ∨ other ∈ c.written)) :
    after.Sound others base c' := by
  have range := sound.taken_range taken
  have small := taken.bounded
  have more := taken.grown
  have live : ∀ other ∈ c'.saved ++ base.objects ++ others, other ≠ block := by
    rintro other member rfl
    rw [saved] at member
    have inside := sound.live_range member
    have grown := sound.grown
    rcases taken.fresh with there | ⟨above, _⟩
    · exact (sound.live other member).1 there
    · omega
  have notFreed : state ≠ freed := by
    simp only [allocated] at valid
    simp only [freed]
    omega
  refine ⟨by rw [saved]; exact sound.begun, ?_, ?_, ?_, ?_, ?_, ?_, ?_, ?_, ?_⟩
  · have := sound.grown
    omega
  · rw [nblocks]
    exact small
  · rw [nblocks]
    refine (sound.table.grow more small).set effect small range.1 range.2.1 ?_ (fun _ => low) ?_
      (fun other _ source => absurd source (sound.taken_unsourced taken other))
    · rcases valid with h | ⟨inside, zero, apart⟩
      · exact .inl h
      · exact .inr (.inr ⟨by omega, apart, zero⟩)
    · rcases opened with same | copied
      · refine .inl ⟨same, ?_⟩
        rintro rfl
        rcases sound.table.objlist with h | ⟨_, h⟩ <;> omega
      · exact .inr copied
  · intro other place
    rw [effect.get]
    have apart : other ≠ block := by
      rintro rfl
      rw [nblocks, free] at place
      rcases place with there | above
      · exact range.2.2.1 there
      · omega
    rw [if_neg apart]
    apply sound.idle
    rw [nblocks, free] at place
    rcases place with there | above
    · have positive := List.one_le_count_iff.mpr there
      have counted := taken.counted other
      by_cases old : other ∈ l.free
      · exact .inl old
      · rw [List.count_eq_zero_of_not_mem old, if_neg apart] at counted
        split at counted <;> omega
    · exact .inr (by omega)
  · intro other
    have before := sound.partition other
    have moved := taken.counted other
    have gained := counted other
    rw [nblocks, free]
    simp only [List.count_append, edbUserData] at before gained ⊢
    by_cases same : other = block
    · subst same
      rw [if_pos rfl] at moved gained
      have user := range.1
      split <;> split at before <;> split at moved <;> omega
    · rw [if_neg same] at moved gained
      have user := sound.begun.user
      have grown := sound.grown
      split <;> split at before <;> split at moved <;> omega
  · have released := effect.releases
    rw [range.2.2.2, show EverDb.released (block, 0) = none by rfl, Option.toList_none,
      List.append_nil] at released
    refine released.symm.trans (List.Perm.trans ?_ retired.symm)
    exact (sound.releases.append_right _).trans List.perm_append_comm
  · intro other member zero
    rw [effect.get] at zero
    rw [saved]
    split at zero
    · exact absurd zero used
    · rename_i apart
      rcases held other member with same | old
      · exact absurd same apart
      · exact sound.settled other old zero
  · intro other member
    have apart := live other member
    rw [saved] at member
    have before := sound.live other member
    rw [effect.get, if_neg apart, free]
    refine ⟨?_, before.2⟩
    intro there
    have positive := List.one_le_count_iff.mpr there
    have moved := taken.counted other
    have inside := sound.live_range member
    have grown := sound.grown
    rw [List.count_eq_zero_of_not_mem before.1, if_neg apart, if_neg (by omega)] at moved
    omega
  · intro other member
    obtain ⟨there, origin⟩ := written other member
    refine ⟨there, ?_⟩
    rw [effect.get]
    split
    · exact ⟨used, notFreed⟩
    · rename_i apart
      rcases origin with same | old
      · exact absurd same apart
      · exact (sound.written other old).2

/-- A taken block can be given any state. -/
theorem taken_effect (sound : l.Sound others base c) {mid : Ledger} (taken : Taken l mid block)
    (state : Nat) : ∃ after, TableSet l.table after block state ∧
      mid.set block state = { mid with table := after } := by
  have range := sound.taken_range taken
  obtain ⟨after, effect⟩ := sound.table.wf.set_effect (k := block) (by omega)
    (sound.table.few sound.bounded) state
  exact ⟨after, effect, by simp [set, taken.table, effect.ran]⟩

/-- `allocate` hands out a block that nobody owns. -/
theorem allocate (sound : l.Sound others base c) (fits : takesFit 1 l.free.length l.nblocks) :
    l.allocate.2.Sound others base (c.took l.allocate.1) := by
  have taken := take_spec sound.bounded fits
  obtain ⟨after, effect, changed⟩ := sound.taken_effect taken allocated
  unfold Ledger.allocate
  rw [changed]
  refine sound.take_set (c.took l.take.1) taken effect rfl rfl rfl (.inl rfl) (by decide)
    (fun low => absurd low (by decide)) (.inl taken.objlist) ?_ (by exact List.Perm.refl _) ?_ ?_
  · intro other
    have copy : workingCopy { l.take.2 with table := after } = l.workingCopy := by
      simp only [workingCopy, taken.objlist]
    rw [copy]
    simp only [Client.took, taken.objects, List.count_append, count_cons_eq]
    omega
  · intro other member
    exact List.mem_cons.mp member
  · intro other member
    rcases List.mem_cons.mp member with same | old
    · exact ⟨by simp [Client.took, same], .inl same⟩
    · exact ⟨by simp [Client.took, (sound.written other old).1], .inr old⟩

/-- `modify` of a block without a state hands out a copy that nobody owns. -/
theorem modify (sound : l.Sound others base c) (held : block ∈ c.held)
    (fits : l.table.get block = 0 → takesFit 1 l.free.length l.nblocks) :
    (l.modify block).2.Sound others base (c.moved block (l.modify block).1) := by
  unfold Ledger.modify
  by_cases fresh : l.table.get block = 0
  · rw [if_pos fresh]
    have taken := take_spec sound.bounded (fits fresh)
    have range := sound.taken_range taken
    have inside := sound.range block (by simp [held])
    have small := sound.bounded
    have live : block ∈ c.saved := sound.settled block held fresh
    have apart : l.take.1 ≠ block := by
      intro same
      have before := sound.live block (by simp [live])
      rcases taken.fresh with there | ⟨above, _⟩
      · exact before.1 (same ▸ there)
      · omega
    obtain ⟨after, effect, changed⟩ := sound.taken_effect taken block
    rw [changed]
    simp only [Client.moved, if_neg apart, Client.retire, if_pos live]
    refine sound.take_set _ taken effect rfl rfl rfl (.inr ⟨inside.2, fresh, Ne.symm apart⟩)
      (by omega) (fun low => by omega) (.inl taken.objlist) ?_ ?_ ?_ ?_
    · intro other
      have copy : workingCopy { l.take.2 with table := after } = l.workingCopy := by
        simp only [workingCopy, taken.objlist]
      rw [copy]
      have positive := List.one_le_count_iff.mpr held
      simp only [taken.objects, List.count_append, count_cons_eq, count_erase_eq]
      by_cases same : other = block
      · subst same
        rw [if_pos rfl]
        omega
      · rw [if_neg same]
        omega
    · rw [released_source inside.1 (by omega)]
      exact List.Perm.refl _
    · intro other member
      rcases List.mem_cons.mp member with same | old
      · exact .inl same
      · exact .inr (List.mem_of_mem_erase old)
    · intro other member
      rcases List.mem_cons.mp member with same | old
      · exact ⟨by simp [same], .inl same⟩
      · have before := sound.written other old
        have different : other ≠ block := by
          rintro rfl
          exact before.2.1 fresh
        exact ⟨List.mem_cons_of_mem _ ((List.mem_erase_of_ne different).mpr before.1), .inr old⟩
  · rw [if_neg fresh]
    simpa [Client.moved] using sound

/-- The object list has no state while it is the committed one. -/
theorem objlist_state (sound : l.Sound others base c) :
    (l.table.get l.objlist = 0 ↔ l.objlist = 3) := by
  constructor
  · intro zero
    rcases sound.table.objlist with h | ⟨_, h⟩
    · exact h
    · omega
  · intro primary
    by_contra bound
    have := sound.table.key _ bound
    omega

/-- `openObjlist` works on a copy that nobody else owns. -/
theorem openObjlist (sound : l.Sound others base c)
    (fits : l.table.get l.objlist = 0 → takesFit 1 l.free.length l.nblocks) :
    l.openObjlist.Sound others base c := by
  unfold Ledger.openObjlist Ledger.modify
  by_cases primary : l.table.get l.objlist = 0
  · rw [if_pos primary]
    have old := sound.objlist_state.mp primary
    have taken := take_spec sound.bounded (fits primary)
    have range := sound.taken_range taken
    have user := sound.begun.user
    have grown := sound.grown
    obtain ⟨after, effect, changed⟩ := sound.taken_effect taken l.objlist
    rw [changed]
    refine sound.take_set c taken effect rfl rfl rfl
      (.inr ⟨by omega, primary, by omega⟩) (by omega) (fun _ => rfl)
      (.inr ⟨old, rfl, old⟩) ?_ ?_ (fun other member => .inr member)
      (fun other member => ⟨(sound.written other member).1, .inr member⟩)
    · intro other
      have before : l.workingCopy = [] := by simp [workingCopy, old]
      have later : workingCopy { l.take.2 with objlist := l.take.1, table := after } =
          [l.take.1] := by
        have apart : ¬l.take.1 = edbObjlist := by
          simp only [edbObjlist]
          omega
        simp [workingCopy, apart]
      rw [before, later]
      simp only [taken.objects, List.count_append, count_cons_eq, List.count_nil]
      omega
    · rw [old]
      exact List.Perm.refl _
  · rw [if_neg primary]
    exact sound

/-- The root of a new object joins the object list. -/
theorem addObject (sound : l.Sound others base c) (fits : takesFit 1 l.free.length l.nblocks) :
    Ledger.Sound others base c
      { l.allocate.2 with objects := l.allocate.2.objects ++ [l.allocate.1] } := by
  have taken := take_spec sound.bounded fits
  obtain ⟨after, effect, changed⟩ := sound.taken_effect taken allocated
  unfold Ledger.allocate
  rw [changed]
  refine sound.take_set c taken effect rfl rfl rfl (.inl rfl) (by decide)
    (fun low => absurd low (by decide)) (.inl taken.objlist) ?_ (by exact List.Perm.refl _)
    (fun other member => .inr member)
    (fun other member => ⟨(sound.written other member).1, .inr member⟩)
  intro other
  have copy : workingCopy { l.take.2 with
      objects := l.take.2.objects ++ [l.take.1], table := after } = l.workingCopy := by
    simp only [workingCopy, taken.objlist]
  rw [copy]
  simp only [taken.objects, List.count_append, count_cons_eq, List.count_nil]
  omega

/-- `create` gives the new object a root of its own. -/
theorem create (sound : l.Sound others base c) (fits : CreateFits l) :
    l.create.2.Sound others base c :=
  (sound.openObjlist fits.opens).addObject fits.allocates

/-- Opening the object list leaves its entries alone. -/
theorem opened (sound : l.Sound others base c)
    (fits : l.table.get l.objlist = 0 → takesFit 1 l.free.length l.nblocks) :
    4 ≤ l.openObjlist.objlist ∧ l.openObjlist.objects = l.objects ∧
      l.nblocks ≤ l.openObjlist.nblocks := by
  unfold Ledger.openObjlist Ledger.modify
  by_cases primary : l.table.get l.objlist = 0
  · rw [if_pos primary]
    have taken := take_spec sound.bounded (fits primary)
    exact ⟨(sound.taken_range taken).1, taken.objects, taken.grown⟩
  · rw [if_neg primary]
    obtain ⟨user, _⟩ := sound.table.objlist.resolve_left
      (fun h => primary (sound.objlist_state.mpr h))
    exact ⟨user, rfl, Nat.le_refl _⟩

/-- The lists and the states after `create`. -/
theorem created (sound : l.Sound others base c) (fits : CreateFits l) :
    l.create.2.objects = l.objects ++ [l.create.1] ∧ 4 ≤ l.create.2.objlist ∧
      l.create.2.table.get l.create.2.objlist = 3 ∧
      l.create.2.table.get l.create.1 = allocated := by
  obtain ⟨user, listed, _⟩ := sound.opened fits.opens
  have openSound := sound.openObjlist fits.opens
  have taken := take_spec openSound.bounded fits.allocates
  obtain ⟨table, effect, changed⟩ := openSound.taken_effect taken allocated
  have objlist : l.create.2.objlist = l.openObjlist.objlist := taken.objlist
  refine ⟨?_, by omega, ?_, ?_⟩
  · change l.openObjlist.take.2.objects ++ [l.openObjlist.take.1] = _
    rw [taken.objects, listed]
    rfl
  · exact ((sound.create fits).table.objlist.resolve_left (by omega)).2
  · change (l.openObjlist.take.2.set l.openObjlist.take.1 allocated).table.get _ = _
    rw [changed]
    change table.get l.openObjlist.take.1 = _
    rw [effect.get, if_pos rfl]

/-- Nothing else is the working copy of the object list. -/
theorem ne_workingCopy (sound : l.Sound others base c) (copied : 4 ≤ l.objlist)
    (member : block ∈ c.held ++ l.objects ++ others) : block ≠ l.objlist := by
  rintro rfl
  have primary : ¬l.objlist = edbObjlist := by
    simp only [edbObjlist]
    omega
  have one : l.workingCopy = [l.objlist] := by simp [workingCopy, primary]
  have counted := sound.partition l.objlist
  have positive := List.one_le_count_iff.mpr member
  simp only [one, List.count_append, List.count_singleton_self] at counted positive
  split at counted <;> omega

/-- A held block has no other place. -/
theorem held_elsewhere (sound : l.Sound others base c) (held : block ∈ c.held) :
    block ∉ l.free ∧ block ∉ l.objects ∧ block ∉ l.workingCopy ∧ block ∉ c.retired ∧
      block ∉ c.held.erase block := by
  have counted := sound.partition block
  have positive := List.one_le_count_iff.mpr held
  simp only [List.count_append] at counted
  have erased := count_erase_eq block block c.held
  rw [if_pos rfl] at erased
  refine ⟨?_, ?_, ?_, ?_, ?_⟩ <;> intro there <;>
    have again := List.one_le_count_iff.mpr there <;> split at counted <;> omega

/-- A client does not hold the object list. -/
theorem held_ne_objlist (sound : l.Sound others base c) (held : block ∈ c.held) :
    block ≠ l.objlist := by
  rintro rfl
  have inside := sound.range l.objlist (by simp [held])
  have apart : ¬l.objlist = edbObjlist := by
    simp only [edbObjlist]
    omega
  exact (sound.held_elsewhere held).2.2.1 (by simp [workingCopy, apart])

/-- At most one copy supersedes a block. -/
theorem source_injective (sound : l.Sound others base c) {left right : Nat}
    (user : 4 ≤ l.table.get left) (inside : l.table.get left < l.nblocks)
    (same : l.table.get right = l.table.get left) : right = left := by
  by_contra apart
  have distinct : (EverDb.releases l.table).Nodup := by
    rw [sound.releases.nodup_iff]
    have each := sound.partition.nodup
    exact (List.nodup_append.mp (List.nodup_append.mp each).1).2.1
  have bounded := sound.bounded
  have pushed : ∀ key, released (key, l.table.get left) = some (l.table.get left) :=
    fun _ => released_source user (by omega)
  have split := releases_perm sound.table.wf left
  rw [split.nodup_iff, pushed, Option.toList_some, List.singleton_append,
    List.nodup_cons] at distinct
  apply distinct.1
  refine List.mem_filterMap.mpr ⟨(right, l.table.get right), ?_, ?_⟩
  · exact Assoc.mem_without.mpr
      ⟨MemHash.key_of_get sound.table.wf (by omega), apart⟩
  · rw [same, pushed]

/-- The states a held block can have. -/
theorem held_state (sound : l.Sound others base c) (held : block ∈ c.held) :
    l.table.get block = 0 ∨ l.table.get block = allocated ∨
      4 ≤ l.table.get block ∧ l.table.get block < l.nblocks := by
  have elsewhere := sound.held_elsewhere held
  have inside := sound.range block (by simp [held])
  have notObjlist := sound.held_ne_objlist held
  have notFreed : l.table.get block ≠ freed := fun state =>
    elsewhere.2.2.2.1 (sound.freed_retired state)
  have reserved := sound.table.reserved block
  rcases sound.table.states block with h | h | h
  · exact .inr (.inl h)
  · exact absurd h notFreed
  · omega

/-- A block of this transaction returns to the freelist; the block it was copied
from stays retired. -/
theorem returned (sound : l.Sound others base c) (held : block ∈ c.held)
    (used : l.table.get block ≠ 0) {after : MemHash}
    (table : TableSound after l.nblocks l.objlist)
    (cleared : after.get block = 0)
    (states : ∀ other, other ≠ block → after.get other = l.table.get other ∨
      other ∈ c.retired ∧ after.get other = freed)
    (same : (EverDb.releases after).Perm (EverDb.releases l.table)) :
    Ledger.Sound others base (c.gave block)
      { l with free := l.free ++ [block], table := after } := by
  have elsewhere := sound.held_elsewhere held
  have inside := sound.range block (by simp [held])
  have older : block ∉ c.saved ++ base.objects ++ others := by
    intro live
    rcases (sound.live block live).2 with h | h
    · exact used h
    · exact elsewhere.2.2.2.1 (sound.freed_retired h)
  have notSaved : block ∉ c.saved := fun member => older (by simp [member])
  have kept : c.retire block = c.retired := by simp only [Client.retire, if_neg notSaved]
  simp only [Client.gave, kept]
  refine ⟨sound.begun, sound.grown, sound.bounded, table, ?_, ?_, ?_, ?_, ?_, ?_⟩
  · intro other place
    by_cases here : other = block
    · rw [here, cleared]
    · have place : other ∈ l.free ∨ l.nblocks ≤ other := by simpa [here] using place
      rcases states other here with h | ⟨retired, _⟩
      · rw [h]
        exact sound.idle other place
      · rcases place with free | above
        · exact absurd retired (sound.not_retired_of_free free)
        · have := sound.range other (by simp [retired])
          omega
  · intro other
    have counted := sound.partition other
    have positive := List.one_le_count_iff.mpr held
    change List.count other (l.free ++ [block] ++ c.held.erase block ++ l.objects ++
      l.workingCopy ++
      c.retired ++ others) = _
    simp only [List.count_append, count_cons_eq, count_erase_eq, List.count_nil] at counted ⊢
    by_cases here : other = block
    · subst here
      rw [if_pos rfl]
      omega
    · rw [if_neg here]
      omega
  · exact same.trans sound.releases
  · intro other member zero
    have here : other ≠ block := fun same => elsewhere.2.2.2.2 (same ▸ member)
    rcases states other here with h | ⟨_, h⟩
    · exact sound.settled other (List.mem_of_mem_erase member) (h ▸ zero)
    · rw [h] at zero
      exact absurd zero (by decide)
  · intro other member
    have here : other ≠ block := fun same => older (same ▸ member)
    have before := sound.live other member
    refine ⟨by simp [before.1, here], ?_⟩
    rcases states other here with h | ⟨_, h⟩
    · rw [h]
      exact before.2
    · exact .inr h
  · intro other member
    obtain ⟨there, apart⟩ := List.mem_filter.mp member
    have here : other ≠ block := by simpa using apart
    have before := sound.written other there
    refine ⟨(List.mem_erase_of_ne here).mpr before.1, ?_⟩
    rcases states other here with h | ⟨retired, _⟩
    · rw [h]
      exact before.2
    · exact absurd retired (sound.held_elsewhere before.1).2.2.2.1

/-- A block of an older transaction joins the retired ones. -/
theorem marked (sound : l.Sound others base c) (held : block ∈ c.held)
    (fresh : l.table.get block = 0) {after : MemHash}
    (effect : TableSet l.table after block freed) :
    Ledger.Sound others base (c.gave block) { l with table := after } := by
  have elsewhere := sound.held_elsewhere held
  have inside := sound.range block (by simp [held])
  have live : block ∈ c.saved := sound.settled block held fresh
  simp only [Client.gave, Client.retire, if_pos live]
  refine ⟨sound.begun, sound.grown, sound.bounded, ?_, ?_, ?_, ?_, ?_, ?_, ?_⟩
  · refine sound.table.set effect sound.bounded inside.1 inside.2 (.inr (.inl rfl))
      (fun _ low => absurd low (by decide)) (.inl ⟨rfl, sound.held_ne_objlist held⟩) ?_
    intro other _ source
    have retired := sound.source_retired other (by omega) (by omega)
    exact absurd (source ▸ retired) elsewhere.2.2.2.1
  · intro other place
    have here : other ≠ block := by
      rintro rfl
      rcases place with free | above
      · exact elsewhere.1 free
      · exact absurd inside.2 (Nat.not_lt.mpr above)
    rw [effect.get, if_neg here]
    exact sound.idle other place
  · intro other
    have counted := sound.partition other
    have positive := List.one_le_count_iff.mpr held
    change List.count other (l.free ++ c.held.erase block ++ l.objects ++ l.workingCopy ++
      block :: c.retired ++ others) = _
    simp only [List.count_append, count_cons_eq, count_erase_eq] at counted ⊢
    by_cases here : other = block
    · subst here
      rw [if_pos rfl]
      omega
    · rw [if_neg here]
      omega
  · have released := effect.releases
    rw [fresh, show EverDb.released (block, 0) = none by rfl,
      show EverDb.released (block, freed) = some block by rfl, Option.toList_none,
      List.append_nil] at released
    exact released.symm.trans ((sound.releases.append_right _).trans List.perm_append_comm)
  · intro other member zero
    have here : other ≠ block := fun same => elsewhere.2.2.2.2 (same ▸ member)
    rw [effect.get, if_neg here] at zero
    exact sound.settled other (List.mem_of_mem_erase member) zero
  · intro other member
    have before := sound.live other member
    rw [effect.get]
    refine ⟨before.1, ?_⟩
    split
    · exact .inr rfl
    · exact before.2
  · intro other member
    obtain ⟨there, apart⟩ := List.mem_filter.mp member
    have here : other ≠ block := by simpa using apart
    have before := sound.written other there
    rw [effect.get, if_neg here]
    exact ⟨(List.mem_erase_of_ne here).mpr before.1, before.2⟩

/-- The table changes of `freeBlock`. -/
inductive FreedBy (l : Ledger) (block : Nat) (result : Ledger) : Prop
  | marked {after : MemHash} (state : l.table.get block = 0)
      (effect : TableSet l.table after block freed) (eq : result = { l with table := after })
  | dropped {after : MemHash} (state : l.table.get block = allocated)
      (effect : TableSet l.table after block 0)
      (eq : result = { l with free := l.free ++ [block], table := after })
  | undone {mid after : MemHash} (user : 4 ≤ l.table.get block)
      (inside : l.table.get block < l.nblocks) (first : TableSet l.table mid block 0)
      (second : TableSet mid after (l.table.get block) freed)
      (eq : result = { l with free := l.free ++ [block], table := after })

/-- `freeBlock` of a held block. -/
theorem freeBlock (sound : l.Sound others base c) (held : block ∈ c.held) :
    FreedBy l block (l.freeBlock block) ∧ (l.freeBlock block).Sound others base (c.gave block) := by
  have elsewhere := sound.held_elsewhere held
  have inside := sound.range block (by simp [held])
  have bounded := sound.bounded
  have few := sound.table.few bounded
  have nonzero : block ≠ 0 := by omega
  have notObjlist := sound.held_ne_objlist held
  have zero : l.table.get 0 = 0 := by
    by_contra bound
    have := sound.table.key _ bound
    omega
  rcases sound.held_state held with state | state | ⟨user, low⟩
  · obtain ⟨after, effect⟩ := sound.table.wf.set_effect nonzero few freed
    have result : l.freeBlock block = { l with table := after } := by
      simp [Ledger.freeBlock, state, Ledger.set, effect.ran]
    rw [result]
    exact ⟨.marked state effect rfl, sound.marked held state effect⟩
  · have used : l.table.get block ≠ 0 := by rw [state]; decide
    obtain ⟨after, effect⟩ := sound.table.wf.set_effect nonzero few 0
    have result : l.freeBlock block = { l with free := l.free ++ [block], table := after } := by
      simp [Ledger.freeBlock, state, Ledger.set, Ledger.giveBack, effect.ran]
    rw [result]
    refine ⟨.dropped state effect rfl, sound.returned held used ?_ ?_ ?_ ?_⟩
    · exact sound.table.set effect bounded inside.1 inside.2
        (.inr (.inr ⟨by omega, by omega, zero⟩))
        (by omega) (.inl ⟨rfl, notObjlist⟩) (fun _ _ _ => rfl)
    · rw [effect.get, if_pos rfl]
    · intro other apart
      exact .inl (by rw [effect.get, if_neg apart])
    · have released := effect.releases
      rw [state, show EverDb.released (block, 0) = none by rfl,
        show EverDb.released (block, allocated) = none by rfl, Option.toList_none, List.append_nil,
        List.append_nil] at released
      exact released.symm
  · have retired := sound.source_retired block user low
    have notSelf : l.table.get block ≠ block := fun same =>
      elsewhere.2.2.2.1 (same ▸ retired)
    have notAllocated : l.table.get block ≠ allocated := by simp only [allocated]; omega
    have sourceObjlist : l.table.get block ≠ l.objlist := by
      intro same
      rcases sound.table.objlist with h | ⟨_, h⟩
      · omega
      · have := sound.table.sources block low
        rw [same, h] at this
        cases this
    obtain ⟨mid, first⟩ := sound.table.wf.set_effect nonzero few 0
    have midTable : TableSound mid l.nblocks l.objlist :=
      sound.table.set first bounded inside.1 inside.2 (.inr (.inr ⟨by omega, by omega, zero⟩))
        (by omega) (.inl ⟨rfl, notObjlist⟩) (fun _ _ _ => rfl)
    obtain ⟨after, second⟩ := midTable.wf.set_effect (k := l.table.get block) (by omega)
      (midTable.few bounded) freed
    have result : l.freeBlock block = { l with free := l.free ++ [block], table := after } := by
      simp [Ledger.freeBlock, show l.table.get block ≠ 0 by omega, notAllocated, Ledger.set,
        Ledger.giveBack, first.ran, second.ran]
    rw [result]
    refine ⟨.undone user low first second rfl, sound.returned held (by omega) ?_ ?_ ?_ ?_⟩
    · refine midTable.set second bounded user low (.inr (.inl rfl))
        (fun _ below => absurd below (by decide)) (.inl ⟨rfl, sourceObjlist⟩) ?_
      intro other _ source
      rw [first.get] at source
      split at source
      · omega
      · rename_i apart
        exact absurd (sound.source_injective user low source) apart
    · rw [second.get, if_neg (Ne.symm notSelf), first.get, if_pos rfl]
    · intro other apart
      rw [second.get, first.get, if_neg apart]
      split
      · rename_i same
        exact .inr ⟨same ▸ retired, rfl⟩
      · exact .inl rfl
    · have one := first.releases
      have two := second.releases
      rw [released_source user (by omega), show EverDb.released (block, 0) = none by rfl,
        Option.toList_none, List.append_nil] at one
      rw [first.get, if_neg notSelf, sound.table.sources block low,
        show EverDb.released (l.table.get block, 0) = none by rfl,
        show EverDb.released (l.table.get block, freed) = some (l.table.get block) by
          simp [released], Option.toList_none, List.append_nil] at two
      exact (one.trans two).symm

/-- What commit pushes: the retired blocks and the working copy. -/
theorem pushed_perm (sound : l.Sound others base c) :
    (l.table.items.filterMap l.pushedFor).Perm (l.workingCopy ++ c.retired) := by
  have distinct := sound.table.wf.keys_nodup
  have value : ∀ entry ∈ l.table.items, l.table.get entry.1 = entry.2 := by
    rintro ⟨key, value⟩ member
    rw [MemHash.get, (Assoc.lookup_eq_some distinct).mpr member]
    rfl
  have plain : ∀ entry ∈ l.table.items, entry.1 ≠ l.objlist →
      l.pushedFor entry = released entry := by
    intro entry member apart
    have read := value entry member
    by_cases root : entry.1 = 2
    · rw [root, sound.table.root] at read
      simp [pushedFor, released, root, ← read]
    · simp [pushedFor, root, apart]
  by_cases primary : l.objlist = 3
  · have none : l.workingCopy = [] := by simp [workingCopy, primary]
    rw [none, List.nil_append]
    refine List.Perm.trans (List.Perm.of_eq ?_) sound.releases
    apply List.filterMap_congr
    intro entry member
    apply plain entry member
    have key := (sound.table.keys entry member).1
    omega
  · have apart : ¬l.objlist = edbObjlist := primary
    have one : l.workingCopy = [l.objlist] := by simp [workingCopy, apart]
    obtain ⟨user, state⟩ := sound.table.objlist.resolve_left primary
    have member : (l.objlist, 3) ∈ l.table.items := by
      have := MemHash.key_of_get sound.table.wf (k := l.objlist) (by omega)
      rwa [state] at this
    have released := releases_perm sound.table.wf l.objlist
    rw [state, show EverDb.released (l.objlist, 3) = none by rfl, Option.toList_none,
      List.nil_append] at released
    have split := (Assoc.perm_cons_without distinct member).filterMap l.pushedFor
    have here : l.pushedFor (l.objlist, 3) = some l.objlist := by
      have notRoot : ¬l.objlist = edbFreelistSecondary := by
        simp only [edbFreelistSecondary]
        omega
      simp [pushedFor, notRoot]
    rw [List.filterMap_cons, here] at split
    rw [one, List.singleton_append]
    refine split.trans (List.Perm.cons _ ?_)
    refine List.Perm.trans (List.Perm.of_eq ?_) (released.symm.trans sound.releases)
    apply List.filterMap_congr
    intro entry other
    obtain ⟨there, key⟩ := Assoc.mem_without.mp other
    exact plain entry there key

/-- Between transactions nothing is retired. -/
theorem commit (sound : l.Sound others base c) : l.commit.Sound others c.committed.held := by
  have user := sound.begun.user
  have grown := sound.grown
  have pushed := List.perm_iff_count.mp sound.pushed_perm
  refine ⟨Nat.le_trans user grown, sound.bounded, fun other => ?_⟩
  have counted := sound.partition other
  have moved := pushed other
  change List.count other (l.free ++ l.table.items.filterMap l.pushedFor ++ c.held ++ l.objects ++
    others) = if edbUserData ≤ other ∧ other < l.nblocks then 1 else 0
  simp only [List.count_append] at counted moved ⊢
  omega

end Sound

end Ledger

/-- A new transaction owns nothing yet. -/
theorem Books.Sound.begun {others : List Nat} {books : Books} {c : Client}
    (sound : books.Sound others c.held) :
    (∃ table, TableSet memHashNew table 2 1 ∧ books.begun = ⟨books, 3, table⟩) ∧
      books.begun.Sound others books c.begun := by
  have user := sound.user
  have empty : memHashNew.Wf := empty_wf 0 (.inl rfl)
  have none : memHashNew.items = [] := empty_items 0
  obtain ⟨table, effect⟩ := empty.set_effect (k := 2) (by decide)
    (by rw [none]; decide) 1
  have begun : books.begun = ⟨books, 3, table⟩ := by
    simp [Books.begun, effect.ran]
  have read : ∀ block, table.get block = if block = 2 then 1 else 0 := by
    intro block
    rw [effect.get, MemHash.get, none]
    rfl
  have released : releases table = [] := by
    have perm := effect.releases
    rw [releases, none, MemHash.get, none] at perm
    exact List.perm_nil.mp (by simpa [EverDb.released] using perm.symm)
  rw [begun]
  refine ⟨⟨table, effect, rfl⟩, sound, Nat.le_refl _, sound.bounded, ?_, ?_, ?_, ?_, ?_, ?_, ?_⟩
  · refine ⟨effect.wf, ?_, ?_, by rw [read, if_pos rfl], ?_, .inl rfl, ?_⟩
    · intro entry member
      rcases effect.keys entry member with same | ⟨old, there, _⟩
      · exact ⟨.inl same, by rw [same]; exact Nat.lt_of_lt_of_le (by decide) user⟩
      · rw [none] at there
        cases there
    · intro block
      refine .inr (.inr (Nat.lt_of_lt_of_le ?_ user))
      rw [read]
      split <;> decide
    · intro block positive _
      rw [read] at positive
      split at positive
      · exact .inl ‹_›
      · omega
    · intro block _
      rw [read block]
      split <;> exact read _
  · intro block place
    rw [read, if_neg]
    rintro rfl
    rcases place with free | above
    · have := sound.partition.range 2 (by simp [show 2 ∈ books.free from free])
      omega
    · exact absurd above (by simp only; omega)
  · intro block
    have counted := sound.partition block
    change List.count block (books.free ++ c.held ++ books.objects ++ [] ++ [] ++ others) = _
    simp only [List.count_append, List.count_nil] at counted ⊢
    omega
  · rw [show (⟨books, 3, table⟩ : Ledger).table = table from rfl, released]
    exact List.Perm.refl _
  · intro block member _
    exact member
  · intro block member
    have counted := sound.partition block
    have positive := List.one_le_count_iff.mpr member
    have range := sound.partition.range block (by
      simp only [Client.begun, List.mem_append] at member ⊢
      tauto)
    refine ⟨?_, .inl (by rw [read, if_neg (by omega)])⟩
    intro free
    have again := List.one_le_count_iff.mpr (show block ∈ books.free from free)
    simp only [Client.begun, List.count_append] at counted positive
    split at counted <;> omega
  · intro block member
    cases member

end EverDb
