import EverDb.Txn.Merge

/-!
# Who owns a block after a merge

Where every entry merges well, the merged books are those of one transaction: the
invariant holds of them as if the parent's client had made all the calls itself. One
entry that does not merge well leaks a block or leaves a state for a free one.
-/

namespace EverDb

open Foundation

/-- What a merge owes to the two clients. `free` is the freelist before it. -/
structure MergePreserves (others : List Nat) (base : Books) (cp cl : Client)
    (free : List Nat) (q : Ledger) : Prop where
  /-- A block in use that is younger than the outer transaction is recorded. -/
  held : ∀ block ∈ cl.held, block ∉ cp.saved →
    q.table.get block = allocated ∨ LiveAtBegin others base cp (q.table.get block)
  /-- A block that the merge has freed is no longer recorded. -/
  pushed : ∀ block ∈ q.free.drop free.length, q.table.get block = 0 ∨ q.table.get block = freed
  /-- A block live at begin that was superseded or freed is recorded once. -/
  recorded : ∀ block ∈ cp.saved, block ∉ cl.held → (releases q.table).count block = 1
  /-- Committing the parent leaks no block and frees none twice. -/
  books : q.commit.Sound others cl.held

variable {others saved : List Nat} {base : Books} {cp cl : Client} {p l q : Ledger}
  {block k v : Nat}

/-- What an entry pushes: a block that the parent allocated and the nested transaction
freed, or a block of the parent that the nested transaction has copied. -/
theorem Ledger.mergePush_eq_some (pushed : p.mergePush (k, v) = some block) :
    block = k ∧ v = freed ∧ p.table.get k = allocated ∨
      block = v ∧ v ≠ allocated ∧ v ≠ freed ∧ p.table.get v ≠ 0 := by
  unfold Ledger.mergePush at pushed
  simp only at pushed
  by_cases fresh : v = allocated
  · rw [if_pos fresh] at pushed
    cases pushed
  rw [if_neg fresh] at pushed
  by_cases gone : v = freed
  · rw [if_pos gone] at pushed
    by_cases parent : p.table.get k = allocated
    · rw [if_pos parent, Option.some.injEq] at pushed
      exact .inl ⟨pushed.symm, gone, parent⟩
    · rw [if_neg parent] at pushed
      cases pushed
  · rw [if_neg gone] at pushed
    by_cases stateless : p.table.get v = 0
    · rw [if_pos stateless] at pushed
      cases pushed
    · rw [if_neg stateless, Option.some.injEq] at pushed
      exact .inr ⟨pushed.symm, fresh, gone, stateless⟩

/-- The block that an entry which merges well pushes. -/
theorem Ledger.MergesWell.push (well : p.MergesWell (k, v))
    (pushed : p.mergePush (k, v) = some block) :
    block = k ∧ v = freed ∧ p.table.get k = allocated := by
  rcases mergePush_eq_some pushed with freeing | ⟨_, old, kept, bound⟩
  · exact freeing
  · exact absurd (well.copies old kept) bound

namespace NestedBooks

/-- The state that a key has after the merge. -/
inductive MergedKey (p l : Ledger) (block state : Nat) : Prop
  | allocated (member : (block, allocated) ∈ l.table.items) (eq : state = allocated)
  | freed (member : (block, freed) ∈ l.table.items) (old : p.table.get block = 0)
      (eq : state = freed)
  | dropped (member : (block, freed) ∈ l.table.items) (new : p.table.get block = allocated)
      (eq : state = 0)
  | copied (member : (block, state) ∈ l.table.items) (old : state ≠ allocated)
      (kept : state ≠ freed) (source : p.table.get state = 0)
  | kept (absent : ∀ entry ∈ l.table.items, entry.1 ≠ block) (eq : state = p.table.get block)

/-- Where all entries merge well, the states of the merged table. -/
theorem merged_key (nest : NestedBooks others saved base cp p cl l)
    (well : ∀ entry ∈ l.table.items, p.MergesWell entry) (block : Nat) :
    MergedKey p l block ((p.merge l).table.get block) := by
  have run := nest.merge_run
  by_cases bound : ∃ value, (block, value) ∈ l.table.items
  · obtain ⟨value, member⟩ := bound
    have merges := well _ member
    have state := (run.merged _ member).2
    unfold Ledger.mergedState at state
    simp only at state
    by_cases fresh : value = EverDb.allocated
    · rw [if_pos fresh] at state
      exact .allocated (fresh ▸ member) state
    rw [if_neg fresh] at state
    by_cases gone : value = EverDb.freed
    · rw [if_pos gone] at state
      subst gone
      rcases merges.frees rfl with old | new
      · exact .freed member old (by rw [state, if_pos old])
      · exact .dropped member new (by rw [state, if_neg (by rw [new]; decide)])
    · have source := merges.copies fresh gone
      simp only at source
      rw [if_neg gone, if_neg (by rw [source]; decide), if_pos source] at state
      rw [state]
      exact .copied member fresh gone source
  · have absent : ∀ entry ∈ l.table.items, entry.1 ≠ block := by
      rintro ⟨key, value⟩ member rfl
      exact bound ⟨value, member⟩
    refine .kept absent ?_
    by_cases retired : block ∈ cp.retired
    · exact run.untouched well block retired
    · refine run.kept block ?_ retired
      intro member
      obtain ⟨entry, there, same⟩ := List.mem_map.mp member
      exact absent entry there same

/-- A block without an entry in the nested table has no state there. -/
theorem absent_state (absent : ∀ entry ∈ l.table.items, entry.1 ≠ block) (wf : l.table.Wf) :
    l.table.get block = 0 := by
  by_contra bound
  exact absent _ (MemHash.key_of_get wf bound) rfl

/-- The table merged is in order. -/
theorem merged_table (nest : NestedBooks others saved base cp p cl l)
    (well : ∀ entry ∈ l.table.items, p.MergesWell entry) :
    TableSound (p.merge l).table l.nblocks (p.merge l).objlist := by
  have run := nest.merge_run
  have bounded := nest.inner.bounded
  have grown : p.nblocks ≤ l.nblocks := nest.inner.grown
  have user : 4 ≤ p.nblocks := nest.inner.begun.user
  have objlist : (p.merge l).objlist = 3 := run.objlist.trans nest.outerPlain.objlist
  -- a block number that no table has as a key
  have low : ∀ block, block ≠ 2 → block < 4 → (p.merge l).table.get block = 0 := by
    intro block notRoot small
    by_contra bound
    have := (run.keys _ (MemHash.key_of_get run.wf bound)).1
    simp only at this
    omega
  refine ⟨run.wf, run.keys, fun block => ?_, ?_, fun block positive small => ?_, .inl objlist,
    fun block below => ?_⟩
  · cases nest.merged_key well block with
    | allocated _ eq => exact .inl eq
    | freed _ _ eq => exact .inr (.inl eq)
    | dropped _ _ eq => exact .inr (.inr (by omega))
    | copied member old kept _ =>
        rcases nest.entry_state member with h | h | h | ⟨_, h⟩ | ⟨_, h⟩
        · exact .inl h
        · exact .inr (.inl h)
        · exact .inr (.inr (by omega))
        · exact .inr (.inr (by omega))
        · exact .inr (.inr h)
    | kept _ eq =>
        rw [eq]
        rcases nest.outer.table.states block with h | h | h
        · exact .inl h
        · exact .inr (.inl h)
        · exact .inr (.inr (Nat.lt_of_lt_of_le h grown))
  · have state := nest.inner.table.root
    have member := MemHash.key_of_get nest.inner.table.wf (k := 2) (by omega)
    rw [state] at member
    have source : p.table.get 1 = 0 := (well _ member).copies (by decide) (by decide)
    rw [(run.merged _ member).2]
    simp [Ledger.mergedState, source]
  · cases nest.merged_key well block with
    | allocated _ eq =>
        simp only [EverDb.allocated] at eq
        omega
    | freed _ _ eq =>
        simp only [EverDb.freed] at eq
        omega
    | dropped _ _ eq => omega
    | copied member old kept _ =>
        rcases nest.entry_state member with h | h | h | ⟨h, _⟩ | ⟨h, _⟩
        · exact absurd h old
        · exact absurd h kept
        · omega
        · exact .inl h
        · omega
    | kept _ eq =>
        rw [eq] at positive small
        rw [run.objlist]
        exact nest.outer.table.reserved block positive small
  · cases nest.merged_key well block with
    | allocated _ eq =>
        simp only [EverDb.allocated] at eq
        omega
    | freed _ _ eq =>
        simp only [EverDb.freed] at eq
        omega
    | dropped _ _ eq =>
        rw [eq]
        exact low 0 (by decide) (by decide)
    | copied member old kept source =>
        rcases nest.entry_state member with h | h | h | ⟨_, h⟩ | ⟨user, inside⟩
        · exact absurd h old
        · exact absurd h kept
        · exact low _ (by omega) (by omega)
        · exact low _ (by omega) (by omega)
        · obtain ⟨retired, unkeyed⟩ := nest.source_key member user inside
          have absent : (p.merge l).table.get block ∉ l.table.items.map Prod.fst := by
            intro there
            obtain ⟨entry, listed, same⟩ := List.mem_map.mp there
            exact unkeyed entry listed same
          exact (run.kept _ absent (nest.retired_apart retired)).trans source
    | kept _ eq =>
        rw [eq] at below ⊢
        have states := nest.outer.table.states block
        have small : p.table.get block < p.nblocks := by
          simp only [EverDb.allocated, EverDb.freed] at states
          omega
        by_cases user : 4 ≤ p.table.get block
        · have retired := nest.outer.source_retired block user small
          exact (run.untouched well _ retired).trans (nest.outer.table.sources block small)
        · refine low _ (fun root => ?_) (by omega)
          have reserved := nest.outer.table.sources block small
          rw [root, nest.outer.table.root] at reserved
          cases reserved

/-- A block in use when the outer transaction began is in use, or retired, when the
nested one does. -/
theorem live_nested (nest : NestedBooks others saved base cp p cl l)
    (live : block ∈ saved ++ base.objects ++ others) :
    block ∈ cl.saved ++ p.objects ++ (cp.retired ++ others) := by
  rw [← nest.outerPlain.started] at live
  have busy := (nest.outer.live block live).1
  have inside := nest.outer.live_range live
  have grown := nest.outer.grown
  have counted := nest.inner.begun.partition block
  have none : p.free.count block = 0 := List.count_eq_zero_of_not_mem busy
  rw [if_pos ⟨inside.1, Nat.lt_of_lt_of_le inside.2 grown⟩] at counted
  simp only [List.count_append] at counted
  refine List.one_le_count_iff.mp ?_
  simp only [List.count_append]
  omega

/-- The books of a merge in which every entry merges well are sound for the outer
transaction. -/
theorem merge_sound (nest : NestedBooks others saved base cp p cl l)
    (well : ∀ entry ∈ l.table.items, p.MergesWell entry) :
    (p.merge l).Sound others base ⟨cl.held, [], saved, releases (p.merge l).table⟩ := by
  have run := nest.merge_run
  have started : base.Sound others saved := nest.outerPlain.started ▸ nest.outer.begun
  have pushes : ∀ block ∈ l.table.items.filterMap p.mergePush,
      (block, freed) ∈ l.table.items ∧ p.table.get block = allocated := by
    intro block member
    obtain ⟨⟨key, value⟩, listed, pushed⟩ := List.mem_filterMap.mp member
    obtain ⟨rfl, rfl, parent⟩ := (well _ listed).push pushed
    exact ⟨listed, parent⟩
  have objects : (p.merge l).objects = l.objects := run.objects.trans nest.innerPlain.objects.symm
  refine ⟨started, ?_, ?_, ?_, ?_, ?_, List.Perm.refl _, ?_, ?_, fun _ member =>
    absurd member List.not_mem_nil⟩
  · rw [run.nblocks]
    exact Nat.le_trans nest.outer.grown nest.inner.grown
  · rw [run.nblocks]
    exact nest.inner.bounded
  · rw [run.nblocks]
    exact nest.merged_table well
  · intro block place
    rw [run.free, run.nblocks] at place
    rcases place with member | beyond
    · rcases List.mem_append.mp member with free | pushed
      · have state := nest.inner.idle block (.inl free)
        cases nest.merged_key well block with
        | allocated member _ =>
            rw [nest.inner.table.wf.get_of_mem member] at state
            cases state
        | freed member _ _ =>
            rw [nest.inner.table.wf.get_of_mem member] at state
            cases state
        | dropped _ _ eq => exact eq
        | copied member _ _ _ => exact (nest.inner.table.wf.get_of_mem member).symm.trans state
        | kept _ eq => exact eq.trans (nest.free_pristine free)
      · obtain ⟨listed, parent⟩ := pushes block pushed
        rw [(run.merged _ listed).2]
        simp [Ledger.mergedState, parent]
    · by_contra bound
      have := (run.keys _ (MemHash.key_of_get run.wf bound)).2
      simp only at this
      omega
  · intro block
    have counted := nest.inner.partition block
    have balanced := run.balanced well block
    have outerReleased := List.perm_iff_count.mp nest.outer.releases block
    have innerReleased := List.perm_iff_count.mp nest.inner.releases block
    have noCopy : (p.merge l).workingCopy = [] := by
      simp [Ledger.workingCopy, run.objlist, nest.outerPlain.objlist]
    have noInnerCopy : l.workingCopy = [] := by simp [Ledger.workingCopy, nest.innerPlain.objlist]
    rw [run.nblocks, run.free, objects, noCopy]
    rw [noInnerCopy] at counted
    change (l.table.items.filterMap released).count block = _ at innerReleased
    simp only [List.count_append, List.count_nil] at counted balanced ⊢
    omega
  · intro block held zero
    have elsewhere := nest.inner.held_elsewhere held
    have older : l.table.get block = 0 → block ∈ cp.held := fun stateless => by
      have saved := nest.inner.settled block held stateless
      rwa [nest.innerPlain.started] at saved
    cases nest.merged_key well block with
    | allocated _ eq =>
        rw [eq] at zero
        cases zero
    | freed _ _ eq =>
        rw [eq] at zero
        cases zero
    | dropped member _ _ =>
        exact absurd (nest.inner.freed_retired (nest.inner.table.wf.get_of_mem member))
          elsewhere.2.2.2.1
    | copied member _ _ _ =>
        rw [zero] at member
        exact absurd (nest.innerPlain.zero block member) elsewhere.1
    | kept absent eq =>
        have there := older (absent_state absent nest.inner.table.wf)
        have saved := nest.outer.settled block there (eq.symm.trans zero)
        rwa [nest.outerPlain.started] at saved
  · intro block live
    obtain ⟨busy, innerState⟩ := nest.inner.live block (nest.live_nested live)
    have state := (nest.outer.live block (nest.outerPlain.started ▸ live)).2
    have notNew : p.table.get block ≠ allocated := by
      intro new
      rcases state with h | h <;> rw [h] at new <;> exact absurd new (by decide)
    refine ⟨fun free => ?_, ?_⟩
    · rw [run.free] at free
      rcases List.mem_append.mp free with old | pushed
      · exact busy old
      · exact notNew (pushes block pushed).2
    · cases nest.merged_key well block with
      | allocated member eq =>
          rw [nest.inner.table.wf.get_of_mem member] at innerState
          exact absurd innerState (by decide)
      | freed _ _ eq => exact .inr eq
      | dropped _ new _ => exact absurd new notNew
      | copied member _ kept _ =>
          rw [nest.inner.table.wf.get_of_mem member] at innerState
          exact .inl (innerState.resolve_right kept)
      | kept _ eq => rwa [eq]

/-- Where every entry merges well, the merge preserves ownership. -/
theorem merge_preserves (nest : NestedBooks others saved base cp p cl l)
    (well : ∀ entry ∈ l.table.items, p.MergesWell entry) :
    MergePreserves others base cp cl l.free (p.merge l) := by
  have run := nest.merge_run
  have sound := nest.merge_sound well
  refine ⟨fun block held younger => ?_, fun block pushed => ?_,
    fun block live gone => ?_, sound.commit⟩
  · rw [nest.outerPlain.started] at younger
    have bound : (p.merge l).table.get block ≠ 0 :=
      fun zero => younger (sound.settled block held zero)
    rcases sound.held_state held with h | h | ⟨user, inside⟩
    · exact absurd h bound
    · exact .inl h
    · -- the block behind a copy was held at begin
      refine .inr (.inr (.inr ?_))
      rw [nest.outerPlain.started]
      simp only [List.mem_append]
      refine .inl (.inl ?_)
      cases nest.merged_key well block with
      | allocated _ eq =>
          simp only [EverDb.allocated] at eq
          have := nest.inner.bounded
          rw [run.nblocks] at inside
          omega
      | freed _ _ eq =>
          simp only [EverDb.freed] at eq
          have := nest.inner.bounded
          rw [run.nblocks] at inside
          omega
      | dropped _ _ eq => exact absurd eq bound
      | copied member old kept source =>
          obtain ⟨retired, _⟩ := nest.source_key member user (run.nblocks ▸ inside)
          have there := nest.outer.settled _ (nest.retired_held retired) source
          rwa [nest.outerPlain.started] at there
      | kept _ eq =>
          rw [eq] at user ⊢
          refine nest.outerPlain.retired _ (nest.outer.source_retired block user ?_)
          have states := nest.outer.table.states block
          have bounded := nest.inner.bounded
          rw [run.nblocks, eq] at inside
          simp only [EverDb.allocated, EverDb.freed] at states
          omega
  · rw [run.free, List.drop_left] at pushed
    refine .inl (sound.idle block (.inl ?_))
    rw [run.free]
    exact List.mem_append_right _ pushed
  · rw [nest.outerPlain.started] at live
    have busy := (sound.live block (by simp [live])).1
    have inside := sound.begun.partition.range block (by simp [live])
    have grown := sound.grown
    have counted := sound.partition block
    have once := sound.begun.partition block
    have positive := List.one_le_count_iff.mpr live
    have noFree : (p.merge l).free.count block = 0 := List.count_eq_zero_of_not_mem busy
    have noHeld : cl.held.count block = 0 := List.count_eq_zero_of_not_mem gone
    have noCopy : (p.merge l).workingCopy = [] := by
      simp [Ledger.workingCopy, run.objlist, nest.outerPlain.objlist]
    rw [noCopy, run.objects, nest.outerPlain.objects] at counted
    rw [if_pos inside] at once
    rw [if_pos ⟨inside.1, Nat.lt_of_lt_of_le inside.2 grown⟩] at counted
    simp only [List.count_append, List.count_nil] at counted once
    omega

/-- No state of the parent names a block that the nested transaction retires. -/
theorem retired_unsourced (nest : NestedBooks others saved base cp p cl l)
    (retired : block ∈ cl.retired) (other : Nat) : p.table.get other ≠ block := by
  rintro rfl
  have inside := nest.inner.range _ (show p.table.get other ∈ _ by simp [retired])
  have bounded := nest.inner.bounded
  have states := nest.outer.table.states other
  simp only [EverDb.allocated, EverDb.freed] at states
  exact nest.retired_apart retired (nest.outer.source_retired other inside.1 (by omega))

/-- No state of the merged table names a block that the nested transaction freed. -/
theorem freed_unsourced (nest : NestedBooks others saved base cp p cl l)
    (member : (k, freed) ∈ l.table.items) (other : Nat) : (p.merge l).table.get other ≠ k := by
  have run := nest.merge_run
  have retired := nest.inner.freed_retired (nest.inner.table.wf.get_of_mem member)
  have unsourced := nest.retired_unsourced retired
  have inside := nest.inner.range k (by simp [retired])
  have bounded := nest.inner.bounded
  by_cases listed : ∃ value, (other, value) ∈ l.table.items
  · obtain ⟨value, entry⟩ := listed
    rw [(run.merged _ entry).2]
    simp only [Ledger.mergedState]
    split
    · simp only [EverDb.allocated]
      omega
    split
    · split
      · simp only [EverDb.freed]
        omega
      · omega
    split
    · exact unsourced other
    split
    · rintro rfl
      exact (nest.source_key entry inside.1 inside.2).2 _ member rfl
    · exact unsourced value
  · by_cases old : other ∈ cp.retired
    · rcases run.passed other old with same | gone
      · rw [same]
        exact unsourced other
      · rw [gone]
        simp only [EverDb.freed]
        omega
    · rw [run.kept other (fun there => ?_) old]
      · exact unsourced other
      · obtain ⟨⟨key, value⟩, entry, rfl⟩ := List.mem_map.mp there
        exact listed ⟨value, entry⟩

/-- A copy of the parent that the nested transaction frees has no owner after the merge. -/
theorem freed_copy_leaks (nest : NestedBooks others saved base cp p cl l)
    (member : (k, freed) ∈ l.table.items)
    (bound : p.table.get k ≠ 0) (notNew : p.table.get k ≠ allocated) :
    ¬(p.merge l).commit.Sound others cl.held := by
  intro books
  have run := nest.merge_run
  have retired := nest.inner.freed_retired (nest.inner.table.wf.get_of_mem member)
  have inside := nest.inner.range k (by simp [retired])
  have noFree : k ∉ (p.merge l).free := by
    rw [run.free]
    intro there
    rcases List.mem_append.mp there with free | pushed
    · exact nest.inner.not_retired_of_free free retired
    · obtain ⟨⟨key, value⟩, listed, push⟩ := List.mem_filterMap.mp pushed
      rcases Ledger.mergePush_eq_some push with ⟨rfl, _, parent⟩ | ⟨rfl, _, _, _⟩
      · exact notNew parent
      · exact (nest.source_key listed inside.1 inside.2).2 _ member rfl
  have noPush : k ∉ (p.merge l).table.items.filterMap (p.merge l).pushedFor := by
    intro there
    obtain ⟨⟨key, state⟩, listed, push⟩ := List.mem_filterMap.mp there
    have read := run.wf.get_of_mem listed
    have user := (run.keys _ listed).1
    have notObjlist : key ≠ (p.merge l).objlist := by
      rw [run.objlist, nest.outerPlain.objlist]
      simp only [edbObjlist]
      omega
    unfold Ledger.pushedFor released at push
    simp only [if_neg notObjlist] at push
    by_cases root : key = edbFreelistSecondary
    · rw [if_pos root] at push
      cases push
    rw [if_neg root] at push
    by_cases gone : state = freed
    · rw [if_pos gone, Option.some.injEq] at push
      rw [push, (run.merged _ member).2] at read
      simp only [Ledger.mergedState, if_neg bound] at read
      rw [gone] at read
      cases read
    rw [if_neg gone] at push
    split at push
    · cases push
    · rw [Option.some.injEq] at push
      exact nest.freed_unsourced member key (read.trans push)
  have counted := books.partition k
  have innerCounted := nest.inner.partition k
  have positive := List.one_le_count_iff.mpr retired
  have objects : (p.merge l).objects = l.objects := run.objects.trans nest.innerPlain.objects.symm
  have nblocks : (p.merge l).commit.nblocks = l.nblocks := run.nblocks
  rw [if_pos ⟨inside.1, nblocks ▸ inside.2⟩] at counted
  rw [if_pos inside] at innerCounted
  change List.count k
    ((p.merge l).free ++ (p.merge l).table.items.filterMap (p.merge l).pushedFor ++ cl.held ++
    (p.merge l).objects ++ others) = 1 at counted
  rw [objects] at counted
  simp only [List.count_append, List.count_eq_zero_of_not_mem noFree,
    List.count_eq_zero_of_not_mem noPush]
    at counted innerCounted
  omega

/-- A block of the parent that the nested transaction has copied is freed with its state
left. -/
theorem superseded_stays (nest : NestedBooks others saved base cp p cl l)
    (member : (k, v) ∈ l.table.items)
    (old : v ≠ allocated) (kept : v ≠ freed) (bound : p.table.get v ≠ 0) :
    v ∈ (p.merge l).free.drop l.free.length ∧ (p.merge l).table.get v ≠ 0 ∧
    (p.merge l).table.get v ≠ freed := by
  have run := nest.merge_run
  have bounded := nest.inner.bounded
  obtain ⟨done, rest, split⟩ := List.append_of_mem member
  have place : v ∈ cl.retired ∧ 4 ≤ v ∧ v < l.nblocks := by
    rcases nest.entry_state member with h | h | h | ⟨_, h⟩ | ⟨user, inside⟩
    · exact absurd h old
    · exact absurd h kept
    · have := nest.outer.table.key v bound
      omega
    · have := nest.outer.table.key v bound
      omega
    · exact ⟨(nest.source_key member user inside).1, user, inside⟩
  obtain ⟨retired, user, inside⟩ := place
  obtain ⟨_, unkeyed⟩ := nest.source_key member user inside
  have absent : v ∉ l.table.items.map Prod.fst := by
    intro there
    obtain ⟨entry, listed, same⟩ := List.mem_map.mp there
    exact unkeyed entry listed same
  have state := run.kept v absent (nest.retired_apart retired)
  refine ⟨?_, by rwa [state], ?_⟩
  · rw [run.free, List.drop_left]
    exact List.mem_filterMap.mpr ⟨(k, v), member, by simp [Ledger.mergePush, old, kept, bound]⟩
  · rw [state]
    rcases nest.retired_state retired with h | h | ⟨_, h, _⟩
    · exact absurd h bound
    · rw [h]
      decide
    · simp only [EverDb.freed]
      omega

/-- A merge preserves ownership exactly when every entry merges well. -/
theorem preserves_iff (nest : NestedBooks others saved base cp p cl l) :
    MergePreserves others base cp cl l.free (p.merge l) ↔
    ∀ entry ∈ l.table.items, p.MergesWell entry := by
  refine ⟨fun preserves => ?_, nest.merge_preserves⟩
  rintro ⟨key, value⟩ member
  refine ⟨fun gone => ?_, fun old kept => ?_⟩
  · by_contra bad
    rw [not_or] at bad
    simp only at gone bad
    subst gone
    exact nest.freed_copy_leaks member bad.1 bad.2 preserves.books
  · by_contra bound
    obtain ⟨pushed, stays⟩ := nest.superseded_stays member old kept bound
    exact (preserves.pushed _ pushed).elim stays.1 stays.2

end NestedBooks

end EverDb
