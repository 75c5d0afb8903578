import EverDb.Txn.Nested

/-!
# Merging the books of a nested transaction

`Ledger.merge` is the loop of `txn_commit` that carries the table of a nested
transaction into that of its parent. An entry reads the parent's state of its key or of
the block it was copied from, and no other entry changes either, so the table merged
in any slot order is known entry by entry (`Merging`).
-/

namespace EverDb

open Foundation

namespace Ledger

/-- The effect of one entry of the nested table on the parent. -/
def mergeEntry (q : Ledger) (entry : Nat × Nat) : Ledger :=
  if entry.2 = allocated then q.set entry.1 allocated
  else if entry.2 = freed then
    if q.table.get entry.1 = allocated then (q.set entry.1 0).giveBack entry.1
    else if q.table.get entry.1 = 0 then q.set entry.1 freed
    else (q.set entry.1 0).set (q.table.get entry.1) freed
  else if q.table.get entry.2 = allocated then q.giveBack entry.2
  else if q.table.get entry.2 = 0 then q.set entry.1 entry.2
  else (q.giveBack entry.2).set entry.1 (q.table.get entry.2)

/-- The parent with the lists that the nested transaction has reached. -/
def under (p l : Ledger) : Ledger := { p with nblocks := l.nblocks, free := l.free }

def merge (p l : Ledger) : Ledger := l.table.items.foldl mergeEntry (p.under l)

/-- The state that an entry leaves for its key. -/
def mergedState (p : Ledger) (entry : Nat × Nat) : Nat :=
  if entry.2 = allocated then allocated
  else if entry.2 = freed then if p.table.get entry.1 = 0 then freed else 0
  else if p.table.get entry.2 = allocated then p.table.get entry.1
  else if p.table.get entry.2 = 0 then entry.2
  else p.table.get entry.2

/-- The block that an entry puts on the freelist. -/
def mergePush (p : Ledger) (entry : Nat × Nat) : Option Nat :=
  if entry.2 = allocated then none
  else if entry.2 = freed then if p.table.get entry.1 = allocated then some entry.1 else none
  else if p.table.get entry.2 = 0 then none
  else some entry.2

/-- An entry that meets no copy and no allocation of the parent, except for a free of a
block that the parent allocated. -/
structure MergesWell (p : Ledger) (entry : Nat × Nat) : Prop where
  frees : entry.2 = freed → p.table.get entry.1 = 0 ∨ p.table.get entry.1 = allocated
  copies : entry.2 ≠ allocated → entry.2 ≠ freed → p.table.get entry.2 = 0

end Ledger

/-- The books of a transaction and of one nested in it. -/
structure NestedBooks (others saved : List Nat) (base : Books) (cp : Client)
    (p : Ledger) (cl : Client) (l : Ledger) : Prop where
  outer : p.Sound others base cp
  outerPlain : p.Plain saved base cp
  inner : l.Sound (cp.retired ++ others) p.toBooks cl
  innerPlain : l.Plain cp.held p.toBooks cl

variable {others saved : List Nat} {base : Books} {cp cl : Client} {p l q : Ledger}
  {block k v : Nat}

/-- Two disciplined clients, one after the other, keep nested books. -/
theorem Recorded.nested (outer : Recorded base saved cp p) (inner : Recorded p.toBooks cp.held cl l)
    (started : base.Sound others saved) : NestedBooks others saved base cp p cl l := by
  obtain ⟨sound, plain⟩ := outer.spec started
  obtain ⟨innerSound, innerPlain⟩ := inner.spec (sound.nested plain)
  exact ⟨sound, plain, innerSound, innerPlain⟩

namespace NestedBooks

/-- A block that was not in use when the nested transaction began has no state in the
parent. -/
theorem pristine (nest : NestedBooks others saved base cp p cl l) (user : 4 ≤ block)
    (idle : block ∉ cl.saved ++ p.objects ++ (cp.retired ++ others)) :
    p.table.get block = 0 := by
  refine nest.outer.idle block ?_
  by_cases inside : block < p.nblocks
  · left
    have counted := nest.inner.begun.partition block
    have none := List.count_eq_zero_of_not_mem idle
    rw [if_pos ⟨user, inside⟩] at counted
    simp only [List.count_append] at counted none
    exact List.one_le_count_iff.mp (show 1 ≤ p.free.count block by omega)
  · right
    omega

theorem free_pristine (nest : NestedBooks others saved base cp p cl l) (free : block ∈ l.free) :
    p.table.get block = 0 := by
  have user := (nest.inner.range block (by simp [free])).1
  exact nest.pristine user fun used => (nest.inner.live block used).1 free

/-- What the nested transaction retires was held when it began. -/
theorem retired_held (nest : NestedBooks others saved base cp p cl l)
    (retired : block ∈ cl.retired) :
    block ∈ cp.held := nest.innerPlain.retired block retired

theorem retired_apart (nest : NestedBooks others saved base cp p cl l)
    (retired : block ∈ cl.retired) :
    block ∉ cp.retired :=
  (nest.outer.held_elsewhere (nest.retired_held retired)).2.2.2.1

/-- The parent's state of a block that the nested transaction retires. -/
theorem retired_state (nest : NestedBooks others saved base cp p cl l)
    (retired : block ∈ cl.retired) :
    p.table.get block = 0 ∨ p.table.get block = allocated ∨
      4 ≤ p.table.get block ∧ p.table.get block < l.nblocks ∧ p.table.get block ∈ cp.retired := by
  have grown := nest.inner.grown
  rcases nest.outer.held_state (nest.retired_held retired) with h | h | ⟨low, high⟩
  · exact .inl h
  · exact .inr (.inl h)
  · exact .inr (.inr ⟨low, Nat.lt_of_lt_of_le high grown, nest.outer.source_retired block low high⟩)

/-- The states of the nested table. -/
theorem entry_state (nest : NestedBooks others saved base cp p cl l)
    (member : (k, v) ∈ l.table.items) :
    v = allocated ∨ v = freed ∨ v = 0 ∨ (k = 2 ∧ v = 1) ∨ (4 ≤ v ∧ v < l.nblocks) := by
  have state := nest.inner.table.wf.get_of_mem member
  have key := (nest.inner.table.keys _ member).1
  simp only at key
  have objlist := nest.innerPlain.objlist
  simp only [edbObjlist] at objlist
  have reserved := nest.inner.table.reserved k
  have root := nest.inner.table.root
  rcases nest.inner.table.states k with h | h | h
  · exact .inl (state ▸ h)
  · exact .inr (.inl (state ▸ h))
  · rw [state] at h reserved
    by_cases low : v < 4
    · by_cases zero : v = 0
      · exact .inr (.inr (.inl zero))
      · rcases reserved (by omega) low with same | same
        · rw [same] at state
          exact .inr (.inr (.inr (.inl ⟨same, by omega⟩)))
        · omega
    · exact .inr (.inr (.inr (.inr ⟨by omega, h⟩)))

/-- A key of the nested table is not a block that the parent retired. -/
theorem key_apart (nest : NestedBooks others saved base cp p cl l)
    (member : (k, v) ∈ l.table.items) :
    k ∉ cp.retired := by
  intro retired
  have state := nest.inner.table.wf.get_of_mem member
  obtain ⟨busy, none | gone⟩ := nest.inner.live k (by simp [retired])
  · rw [state] at none
    exact busy (nest.innerPlain.zero k (none ▸ member))
  · exact nest.retired_apart (nest.inner.freed_retired gone) retired

/-- Only a freed key can have a state in the parent. -/
theorem key_pristine (nest : NestedBooks others saved base cp p cl l)
    (member : (k, v) ∈ l.table.items) (kept : v ≠ freed) : k = 2 ∨ p.table.get k = 0 := by
  have state := nest.inner.table.wf.get_of_mem member
  rcases (nest.inner.table.keys _ member).1 with root | user
  · exact .inl root
  · refine .inr (nest.pristine user fun used => ?_)
    obtain ⟨busy, none | gone⟩ := nest.inner.live k used
    · rw [state] at none
      exact busy (nest.innerPlain.zero k (none ▸ member))
    · exact kept (state ▸ gone)

/-- A block that the nested transaction has copied is no key of its table. -/
theorem source_key (nest : NestedBooks others saved base cp p cl l)
    (member : (k, v) ∈ l.table.items) (user : 4 ≤ v) (inside : v < l.nblocks) :
    v ∈ cl.retired ∧ ∀ entry ∈ l.table.items, entry.1 ≠ v := by
  have state := nest.inner.table.wf.get_of_mem member
  have retired := nest.inner.source_retired k (by omega) (by omega)
  rw [state] at retired
  refine ⟨retired, ?_⟩
  rintro ⟨key, value⟩ there rfl
  have zero := nest.inner.table.sources k (by omega)
  rw [state, nest.inner.table.wf.get_of_mem there] at zero
  exact nest.inner.not_retired_of_free (nest.innerPlain.zero _ (zero ▸ there)) retired

end NestedBooks

/-- The parent after some entries of the nested table were merged: their keys have the
states that the entries leave, the blocks that the parent retired may have been freed
for good, and everything else is as the parent left it. -/
structure Merging (retired : List Nat) (p l : Ledger) (done : List (Nat × Nat))
    (q : Ledger) : Prop where
  wf : q.table.Wf
  keys : ∀ entry ∈ q.table.items, (entry.1 = 2 ∨ 4 ≤ entry.1) ∧ entry.1 < l.nblocks
  nblocks : q.nblocks = l.nblocks
  objlist : q.objlist = p.objlist
  objects : q.objects = p.objects
  free : q.free = l.free ++ done.filterMap p.mergePush
  merged : ∀ entry ∈ done, entry.1 ∉ retired ∧ q.table.get entry.1 = p.mergedState entry
  kept : ∀ block, block ∉ done.map Prod.fst → block ∉ retired →
    q.table.get block = p.table.get block
  passed : ∀ block ∈ retired, q.table.get block = p.table.get block ∨ q.table.get block = freed
  untouched : (∀ entry ∈ done, p.MergesWell entry) →
    ∀ block ∈ retired, q.table.get block = p.table.get block
  /-- What is pushed or released was released before. -/
  balanced : (∀ entry ∈ done, p.MergesWell entry) →
    ∀ block, (releases q.table).count block + (done.filterMap p.mergePush).count block =
      (releases p.table).count block + (done.filterMap released).count block

namespace Merging

variable {retired : List Nat} {done rest : List (Nat × Nat)} {after : Ledger} {entry : Nat × Nat}

theorem few (holds : Merging retired p l done q) (bounded : l.nblocks < 1048576) :
    q.table.items.length < maxKeys := by
  have counted := holds.wf.length_le fun entry member => (holds.keys entry member).2
  simp only [maxKeys]
  omega

/-- One more entry, which sets its key and may free a block that the parent retired. -/
theorem step (holds : Merging retired p l done q) (new : entry.1 ∉ done.map Prod.fst)
    (apart : entry.1 ∉ retired)
    (wf : after.table.Wf)
    (keys : ∀ entry ∈ after.table.items, (entry.1 = 2 ∨ 4 ≤ entry.1) ∧ entry.1 < l.nblocks)
    (lists : after.nblocks = q.nblocks ∧ after.objlist = q.objlist ∧ after.objects = q.objects)
    (free : after.free = q.free ++ (p.mergePush entry).toList)
    (own : after.table.get entry.1 = p.mergedState entry)
    (frame : ∀ block, block ≠ entry.1 →
      after.table.get block = q.table.get block ∨
        block ∈ retired ∧ after.table.get block = freed ∧ ¬p.MergesWell entry)
    (balance : p.MergesWell entry → ∀ block,
      (releases after.table).count block + (p.mergePush entry).toList.count block =
        (releases q.table).count block + (released entry).toList.count block) :
    Merging retired p l (done ++ [entry]) after := by
  have pushes : (done ++ [entry]).filterMap p.mergePush =
      done.filterMap p.mergePush ++ (p.mergePush entry).toList := by
    cases pushed : p.mergePush entry <;> simp [pushed]
  have releasing : (done ++ [entry]).filterMap released =
      done.filterMap released ++ (released entry).toList := by
    cases pushed : released entry <;> simp [pushed]
  refine ⟨wf, keys, lists.1.trans holds.nblocks, lists.2.1.trans holds.objlist,
    lists.2.2.trans holds.objects, ?_, ?_, ?_, ?_, ?_, ?_⟩
  · rw [free, holds.free, pushes, List.append_assoc]
  · intro other member
    rcases List.mem_append.mp member with old | same
    · obtain ⟨free, state⟩ := holds.merged other old
      refine ⟨free, ?_⟩
      have different : other.1 ≠ entry.1 := fun same => new (List.mem_map.mpr ⟨other, old, same⟩)
      rcases frame other.1 different with kept | ⟨there, _⟩
      · exact kept.trans state
      · exact absurd there free
    · rw [List.mem_singleton.mp same]
      exact ⟨apart, own⟩
  · intro block absent outside
    rw [List.map_append, List.mem_append, not_or] at absent
    have different : block ≠ entry.1 := fun same => absent.2 (by simp [same])
    rcases frame block different with kept | ⟨there, _⟩
    · exact kept.trans (holds.kept block absent.1 outside)
    · exact absurd there outside
  · intro block member
    rcases frame block (fun same => apart (same ▸ member)) with kept | ⟨_, gone, _⟩
    · rw [kept]
      exact holds.passed block member
    · exact .inr gone
  · intro well block member
    rcases frame block (fun same => apart (same ▸ member)) with kept | ⟨_, _, bad⟩
    · exact kept.trans (holds.untouched (fun other there =>
        well other (List.mem_append_left _ there)) block member)
    · exact absurd (well entry (by simp)) bad
  · intro well block
    have before :=
      holds.balanced (fun other member => well other (List.mem_append_left _ member)) block
    have step := balance (well entry (by simp)) block
    rw [pushes, releasing, List.count_append, List.count_append]
    omega

/-- An entry that sets its key. -/
theorem set_step (holds : Merging retired p l done q) (new : entry.1 ∉ done.map Prod.fst)
    (apart : entry.1 ∉ retired) (inside : (entry.1 = 2 ∨ 4 ≤ entry.1) ∧ entry.1 < l.nblocks)
    (silent : released (entry.1, p.table.get entry.1) = none) {table : MemHash}
    (effect : TableSet q.table table entry.1 (p.mergedState entry))
    (balance : p.MergesWell entry →
      (released (entry.1, p.mergedState entry)).toList ++ (p.mergePush entry).toList =
        (released entry).toList) :
    Merging retired p l (done ++ [entry])
      { q with free := q.free ++ (p.mergePush entry).toList, table := table } := by
  have keys := effect.keys_all (fun key => (key = 2 ∨ 4 ≤ key) ∧ key < l.nblocks) inside holds.keys
  refine holds.step new apart effect.wf keys ⟨rfl, rfl, rfl⟩ rfl ?_ ?_ ?_
  · exact (effect.get entry.1).trans (if_pos rfl)
  · intro block different
    exact .inl ((effect.get block).trans (if_neg different))
  · intro well block
    have counted := List.perm_iff_count.mp effect.releases block
    rw [holds.kept entry.1 new apart, silent, Option.toList_none, List.append_nil,
      List.count_append] at counted
    rw [← balance well, List.count_append]
    change (releases table).count block + _ = _
    omega

/-- An entry that forgets a copy of the parent, and frees the block behind it. -/
theorem forget_step (holds : Merging retired p l done q) (new : entry.1 ∉ done.map Prod.fst)
    (apart : entry.1 ∉ retired) (bad : ¬p.MergesWell entry) (noPush : p.mergePush entry = none)
    (state : p.mergedState entry = 0) {source : Nat} (behind : source ∈ retired)
    (inside : (entry.1 = 2 ∨ 4 ≤ entry.1) ∧ entry.1 < l.nblocks) (user : 4 ≤ source ∧
      source < l.nblocks) {middle table : MemHash} (first : TableSet q.table middle entry.1 0)
    (second : TableSet middle table source freed) :
    Merging retired p l (done ++ [entry]) { q with table := table } := by
  have different : entry.1 ≠ source := fun same => apart (same ▸ behind)
  have keys :=
    second.keys_all (fun key => (key = 2 ∨ 4 ≤ key) ∧ key < l.nblocks) ⟨.inr user.1, user.2⟩
    (first.keys_all (fun key => (key = 2 ∨ 4 ≤ key) ∧ key < l.nblocks) inside holds.keys)
  refine holds.step new apart second.wf keys ⟨rfl, rfl, rfl⟩ ?_ ?_ ?_ fun well => absurd well bad
  · simp [noPush]
  · rw [state]
    exact (second.get entry.1).trans
      ((if_neg different).trans ((first.get entry.1).trans (if_pos rfl)))
  · intro block other
    by_cases same : block = source
    · exact .inr ⟨same ▸ behind, (second.get block).trans (if_pos same), bad⟩
    · exact .inl
        ((second.get block).trans ((if_neg same).trans ((first.get block).trans (if_neg other))))

end Merging

namespace NestedBooks

variable {done rest : List (Nat × Nat)} {entry : Nat × Nat}

/-- Before the first entry. -/
theorem merging_start (nest : NestedBooks others saved base cp p cl l) :
    Merging cp.retired p l [] (p.under l) := by
  have grown := nest.inner.grown
  refine ⟨nest.outer.table.wf, fun entry member => ?_, rfl, rfl, rfl, (List.append_nil _).symm,
    fun entry member => absurd member List.not_mem_nil, fun _ _ _ => rfl, fun _ _ =>
      .inl rfl, fun _ _ _ => rfl, fun _ _ => rfl⟩
  have key := nest.outer.table.keys entry member
  exact ⟨key.1, Nat.lt_of_lt_of_le key.2 grown⟩

/-- The parent's state of a key is as the parent left it until the key's entry comes. -/
theorem read_key (nest : NestedBooks others saved base cp p cl l)
    (split : l.table.items = done ++ entry :: rest) (holds : Merging cp.retired p l done q) :
    entry.1 ∉ done.map Prod.fst ∧ entry.1 ∉ cp.retired ∧
    q.table.get entry.1 = p.table.get entry.1 := by
  have new : entry.1 ∉ done.map Prod.fst := by
    have distinct := nest.inner.table.wf.keys_nodup
    rw [split, List.map_append, List.map_cons, List.nodup_append] at distinct
    exact fun member => distinct.2.2 _ member _ List.mem_cons_self rfl
  have apart := nest.key_apart (k := entry.1) (v := entry.2) (by simp [split])
  exact ⟨new, apart, holds.kept entry.1 new apart⟩

/-- The parent's state of the block that a key was copied from is the one of before. -/
theorem read_source (nest : NestedBooks others saved base cp p cl l)
    (split : l.table.items = done ++ entry :: rest)
    (holds : Merging cp.retired p l done q) (old : entry.2 ≠ allocated) (kept : entry.2 ≠ freed) :
    q.table.get entry.2 = p.table.get entry.2 ∧
      (p.table.get entry.2 = 0 ∨ entry.2 ∈ cl.retired ∧ 4 ≤ entry.2 ∧ entry.2 < l.nblocks) := by
  have member : (entry.1, entry.2) ∈ l.table.items := by simp [split]
  have keys : ∀ other ∈ done, other.1 = 2 ∨ 4 ≤ other.1 := fun other there =>
    (nest.inner.table.keys other (by simp [split, there])).1
  have low : entry.2 < 2 → q.table.get entry.2 = p.table.get entry.2 ∧ p.table.get entry.2 = 0 := by
    intro small
    refine ⟨holds.kept entry.2 ?_ ?_, ?_⟩
    · intro there
      obtain ⟨other, earlier, same⟩ := List.mem_map.mp there
      have := keys other earlier
      omega
    · intro retired
      have := (nest.outer.range entry.2 (by simp [retired])).1
      omega
    · by_contra bound
      have := (nest.outer.table.key entry.2 bound).1
      omega
  rcases nest.entry_state member with h | h | h | ⟨_, h⟩ | ⟨user, inside⟩
  · exact absurd h old
  · exact absurd h kept
  · exact ⟨(low (by omega)).1, .inl (low (by omega)).2⟩
  · exact ⟨(low (by omega)).1, .inl (low (by omega)).2⟩
  · obtain ⟨retired, unkeyed⟩ := nest.source_key member user inside
    refine ⟨holds.kept entry.2 ?_ (nest.retired_apart retired), .inr ⟨retired, user, inside⟩⟩
    intro there
    obtain ⟨other, earlier, same⟩ := List.mem_map.mp there
    exact unkeyed other (by simp [split, earlier]) same

/-- A key that the nested transaction has not freed releases nothing in the parent. -/
theorem key_silent (nest : NestedBooks others saved base cp p cl l)
    (member : (k, v) ∈ l.table.items) (kept : v ≠ freed) : released (k, p.table.get k) = none := by
  rcases nest.key_pristine member kept with root | stateless
  · rw [root, nest.outer.table.root]
    rfl
  · rw [stateless]
    rfl

/-- Setting the key to the state that its entry leaves. -/
theorem merge_set (nest : NestedBooks others saved base cp p cl l)
    (split : l.table.items = done ++ entry :: rest)
    (holds : Merging cp.retired p l done q) (state : Nat) (leaves : state = p.mergedState entry)
    (silent : released (entry.1, p.table.get entry.1) = none)
    (balance : p.MergesWell entry →
      (released (entry.1, state)).toList ++ (p.mergePush entry).toList = (released entry).toList) :
    ∃ table, memHashSet q.table entry.1 state = some table ∧
    Merging cp.retired p l (done ++ [entry])
      { q with free := q.free ++ (p.mergePush entry).toList, table := table } := by
  have inside := nest.inner.table.keys entry (by simp [split])
  obtain ⟨new, apart, _⟩ := nest.read_key split holds
  obtain ⟨table, effect⟩ :=
    holds.wf.set_effect (k := entry.1) (by omega) (holds.few nest.inner.bounded) state
  subst leaves
  exact ⟨table, effect.ran, holds.set_step new apart inside silent effect balance⟩

/-- An entry of a block that the nested transaction has allocated. -/
theorem merge_allocated (nest : NestedBooks others saved base cp p cl l)
    (split : l.table.items = done ++ entry :: rest) (holds : Merging cp.retired p l done q)
    (fresh : entry.2 = allocated) :
    Merging cp.retired p l (done ++ [entry]) (q.mergeEntry entry) := by
  have member : (entry.1, entry.2) ∈ l.table.items := by simp [split]
  have push : p.mergePush entry = none := by simp [Ledger.mergePush, fresh]
  obtain ⟨table, ran, merged⟩ := nest.merge_set split holds allocated
    (by simp [Ledger.mergedState, fresh]) (nest.key_silent member (by rw [fresh]; decide))
    (fun _ => by simp [push, released, fresh])
  unfold Ledger.mergeEntry
  rw [if_pos fresh]
  simpa [push, Ledger.set, ran] using merged

/-- An entry of a block that the nested transaction has freed: where the parent had
copied it, the copy is forgotten and the original freed. -/
theorem merge_freed (nest : NestedBooks others saved base cp p cl l)
    (split : l.table.items = done ++ entry :: rest)
    (holds : Merging cp.retired p l done q) (gone : entry.2 = freed) :
    Merging cp.retired p l (done ++ [entry]) (q.mergeEntry entry) := by
  have member : (entry.1, entry.2) ∈ l.table.items := by simp [split]
  have inside := nest.inner.table.keys entry (by simp [split])
  have notFresh : entry.2 ≠ allocated := by rw [gone]; decide
  obtain ⟨new, apart, key⟩ := nest.read_key split holds
  have retired : entry.1 ∈ cl.retired :=
    nest.inner.freed_retired ((nest.inner.table.wf.get_of_mem member).trans gone)
  unfold Ledger.mergeEntry
  rw [if_neg notFresh, if_pos gone, key]
  rcases nest.retired_state retired with stateless | parent | ⟨low, high, behind⟩
  · have push : p.mergePush entry = none := by simp [Ledger.mergePush, gone, stateless]
    obtain ⟨table, ran, merged⟩ := nest.merge_set split holds freed
      (by simp [Ledger.mergedState, gone, stateless]) (by rw [stateless]; rfl)
      (fun _ => by simp [push, released, gone])
    rw [if_neg (by rw [stateless]; decide), if_pos stateless]
    simpa [push, Ledger.set, ran] using merged
  · have push : p.mergePush entry = some entry.1 := by simp [Ledger.mergePush, gone, parent]
    obtain ⟨table, ran, merged⟩ := nest.merge_set split holds 0
      (by simp [Ledger.mergedState, gone, parent]) (by rw [parent]; rfl)
      (fun _ => by simp [push, released, gone])
    rw [if_pos parent]
    simpa [push, Ledger.set, Ledger.giveBack, ran] using merged
  · have bounded := nest.inner.bounded
    have notNew : p.table.get entry.1 ≠ allocated := by
      simp only [allocated]
      omega
    have bound : p.table.get entry.1 ≠ 0 := by omega
    have push : p.mergePush entry = none := by simp [Ledger.mergePush, gone, notNew]
    have bad : ¬p.MergesWell entry := fun well => (well.frees gone).elim bound notNew
    obtain ⟨middle, first⟩ := holds.wf.set_effect (k := entry.1) (by omega) (holds.few bounded) 0
    have middleKeys :=
      first.keys_all (fun key => (key = 2 ∨ 4 ≤ key) ∧ key < l.nblocks) inside holds.keys
    have middleFew : middle.items.length < maxKeys := by
      have counted := first.wf.length_le fun other there => (middleKeys other there).2
      simp only [maxKeys]
      omega
    obtain ⟨table, second⟩ :=
      first.wf.set_effect (k := p.table.get entry.1) (by omega) middleFew freed
    have merged :=
      holds.forget_step new apart bad push (by simp [Ledger.mergedState, gone, bound]) behind inside
      ⟨low, high⟩ first second
    rw [if_neg notNew, if_neg bound]
    simpa [Ledger.set, first.ran, second.ran] using merged

/-- An entry of a block that the nested transaction has copied, or of one that it has
given back. -/
theorem merge_copied (nest : NestedBooks others saved base cp p cl l)
    (split : l.table.items = done ++ entry :: rest)
    (holds : Merging cp.retired p l done q) (old : entry.2 ≠ allocated) (kept : entry.2 ≠ freed) :
    Merging cp.retired p l (done ++ [entry]) (q.mergeEntry entry) := by
  have member : (entry.1, entry.2) ∈ l.table.items := by simp [split]
  obtain ⟨new, apart, key⟩ := nest.read_key split holds
  have source := (nest.read_source split holds old kept).1
  unfold Ledger.mergeEntry
  rw [if_neg old, if_neg kept, source]
  by_cases parent : p.table.get entry.2 = allocated
  · have push : p.mergePush entry = some entry.2 := by simp [Ledger.mergePush, old, kept, parent]
    rw [if_pos parent]
    refine holds.step new apart holds.wf holds.keys ⟨rfl, rfl, rfl⟩ ?_ ?_ (fun _ _ => .inl rfl) ?_
    · simp [push, Ledger.giveBack]
    · simp [Ledger.giveBack, Ledger.mergedState, old, kept, parent, key]
    · intro well
      exact absurd (parent ▸ well.copies old kept) (by decide)
  by_cases stateless : p.table.get entry.2 = 0
  · have push : p.mergePush entry = none := by simp [Ledger.mergePush, old, kept, stateless]
    obtain ⟨table, ran, merged⟩ := nest.merge_set split holds entry.2
      (by simp [Ledger.mergedState, old, kept, stateless]) (nest.key_silent member kept)
      (fun _ => by simp [push])
    rw [if_neg parent, if_pos stateless]
    simpa [push, Ledger.set, ran] using merged
  · have push : p.mergePush entry = some entry.2 := by simp [Ledger.mergePush, old, kept, stateless]
    obtain ⟨table, ran, merged⟩ := nest.merge_set split holds (p.table.get entry.2)
      (by simp [Ledger.mergedState, old, kept, parent, stateless]) (nest.key_silent member kept)
      (fun well => absurd (well.copies old kept) stateless)
    rw [if_neg parent, if_neg stateless]
    simpa [push, Ledger.set, Ledger.giveBack, ran] using merged

/-- One entry is merged. -/
theorem merge_entry (nest : NestedBooks others saved base cp p cl l)
    (split : l.table.items = done ++ entry :: rest)
    (holds : Merging cp.retired p l done q) :
    Merging cp.retired p l (done ++ [entry]) (q.mergeEntry entry) := by
  by_cases fresh : entry.2 = allocated
  · exact nest.merge_allocated split holds fresh
  · by_cases gone : entry.2 = freed
    · exact nest.merge_freed split holds gone
    · exact nest.merge_copied split holds fresh gone

/-- The whole table is merged. -/
theorem merge_run (nest : NestedBooks others saved base cp p cl l) :
    Merging cp.retired p l l.table.items (p.merge l) := by
  have run : ∀ rest done q, l.table.items = done ++ rest → Merging cp.retired p l done q →
      Merging cp.retired p l l.table.items (rest.foldl Ledger.mergeEntry q) := by
    intro rest
    induction rest with
    | nil =>
        intro done q split holds
        rw [split, List.append_nil]
        exact holds
    | cons entry rest ih =>
        intro done q split holds
        exact ih (done ++ [entry]) _ (by rw [split, List.append_assoc, List.singleton_append])
          (nest.merge_entry split holds)
  exact run _ [] _ rfl nest.merging_start

end NestedBooks

end EverDb
