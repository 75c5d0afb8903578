import EverDb.Page.Grow

/-!
# Shrinking a page table

The two loop bodies of `page_resize` that remove a data block. Where the entry is in
an index block, it is cleared before the index block is made writable: a committed
index block is written in place.
-/

namespace EverDb

open Foundation

variable {ρ : Type} {api : BlockApi (Db ρ)} {contract : BlockContract api} {own : Ownership}
  {db : Db ρ} {root limit : Nat} {blocks indexes : List Nat}

/-- One round of the loop that shrinks `data_blocks`. -/
theorem shrinkDataBlocks_spec {old : Nat}
    (held : HeldTable contract own db root limit (blocks ++ [old]) indexes)
    (low : blocks.length < 512) :
    ∃ after, shrinkDataBlocks api root db = .ok () after ∧
      HeldTable contract (own.freed old) after root limit blocks indexes ∧
      TableChange own (own.freed old) db after root limit (blocks ++ [old]) indexes blocks indexes ∧
      CommittedKept own (own.freed old) db after := by
  have table := held.table
  have fits := table.fits
  have noIndexes : indexes = [] := by
    apply List.eq_nil_of_length_eq_zero
    rw [table.spans, indexCount, List.length_append, List.length_singleton]
    omega
  have count := table.count
  rw [List.length_append, List.length_singleton] at count
  have last : (db.data root).word blocks.length = old :=
    table.direct _ old low (by rw [List.getElem?_concat_length])
  have oldLive := held.live old (by simp)
  obtain ⟨absent, distinct⟩ := nodup_append_block.mp held.distinct
  have oldNotRoot : root ≠ old := fun here => absent (by simp [here])
  obtain ⟨freed, ran, valid, same⟩ := contract.free held.valid oldLive
  have rootWritable : (own.freed old).writable root := ⟨held.writable, oldNotRoot⟩
  have rootLive := (contract.wf valid).writable_live _ rootWritable
  have rootSame := same root held.root_kept
  set after := (freed.setWord root 1023 blocks.length).setWord root blocks.length 0 with afterDef
  have final : after.data root =
      ((db.data root).setWord 1023 blocks.length).setWord blocks.length 0 := by
    rw [afterDef, Db.setWord_data_self, Db.setWord_data_self, rootSame]
  have others : ∀ other, own.kept other → other ≠ root → after.data other = db.data other := by
    intro other kept apart
    rw [afterDef, Db.setWord_data_of_ne apart, Db.setWord_data_of_ne apart, same other kept]
  have word : ∀ i, (after.data root).word i = if i = blocks.length then 0
      else if i = 1023 then blocks.length else (db.data root).word i := by
    intro i
    rw [final, Image.word_setWord (by omega), Image.word_setWord (by omega)]
  have header : ∀ offset, 4 * (512 + limit) ≤ offset → offset < 4092 →
      after.data root offset = freed.data root offset := by
    intro offset low high
    rw [final, Image.setWord_byte_of_ne (by omega), Image.setWord_byte_of_ne (by omega), rootSame]
  have before : sub32 (blocks.length + 1) 1 = blocks.length := by
    rw [sub32_of_le (by omega) (by omega)]
    omega
  refine ⟨after, ?_, ⟨?_, ?_, rootWritable, ?_, ?_⟩, ?_, ?_⟩
  · rw [shrinkDataBlocks, load_bind, count, before, load_bind, last, Code.bind_ok ran, load_bind,
      rootSame, count, before, store_bind, store_run]
  · exact contract.write (contract.write valid rootLive _) rootLive _
  · subst noIndexes
    refine ⟨?_, table.limited, by omega, ?_, ?_, by simp, by simp, ?_⟩
    · rw [word, if_neg (by omega), if_pos rfl]
    · rw [indexCount, List.length_nil]
      omega
    · intro i block small here
      obtain ⟨inside, _⟩ := List.getElem?_eq_some_iff.mp here
      rw [word, if_neg (by omega), if_neg (by omega)]
      exact table.direct i block small (by rw [List.getElem?_append_left inside, here])
    · intro j bound small
      have := table.limited
      rw [word, if_neg (by omega), if_neg (by omega)]
      exact table.clear j bound small
  · intro block member
    refine ⟨held.live block ?_, ?_⟩
    · simp only [List.mem_append] at member ⊢
      exact member.imp_left .inl
    · rintro rfl
      exact absent (List.mem_cons_of_mem _ member)
  · exact distinct
  · refine (TableChange.freeBlock held.distinct held.root_kept same).trans
      (TableChange.writes ?_ header) distinct distinct fun block _ stays => stays
    intro other notRoot _
    rw [afterDef, Db.setWord_data_of_ne notRoot, Db.setWord_data_of_ne notRoot]
  · refine CommittedKept.freed fun other committed => others other committed.1 ?_
    rintro rfl
    exact committed.2 held.writable

/-- The last index block once the entry of data block `blocks.length` is gone. -/
structure IndexClosed (contract : BlockContract api) (own later : Ownership) (db after : Db ρ)
    (root limit : Nat) (blocks indexes : List Nat) (result : Nat) (indexes' : List Nat) : Prop where
  valid : contract.Valid later after
  rootWritable : later.writable root
  bounded : result < 4294967296
  spans : indexes'.length = indexCount blocks.length
  earlier : ∀ j index, j ≠ (blocks.length - 512) / 1024 → indexes'[j]? = some index →
    indexes[j]? = some index
  last : ∀ index, indexes'[(blocks.length - 512) / 1024]? = some index → index = result
  none : indexes'.length ≤ (blocks.length - 512) / 1024 → result = 0
  entries : ∀ i block, 512 ≤ i → blocks[i]? = some block →
    (i - 512) / 1024 = (blocks.length - 512) / 1024 →
    (after.data result).word ((i - 512) % 1024) = block
  live : ∀ block ∈ blocks ++ indexes', later.live block
  distinct : (root :: (blocks ++ indexes')).Nodup
  same : ∀ other, own.kept other → after.data other = db.data other
  change : TableChange own later db after root limit blocks indexes blocks indexes'
  committed : CommittedKept own later db after
  origin : IndexOrigin own later (· = (blocks.length - 512) / 1024) indexes indexes'
  room : own.room ≤ later.room + 1

/-- The fate of the last index block in the loop that shrinks `index_blocks`. -/
theorem closeIndex (limit : Nat) {old : Nat} (valid : contract.Valid own db)
    (rootWritable : own.writable root) (live : ∀ block ∈ blocks ++ indexes, own.live block)
    (distinct : (root :: (blocks ++ indexes)).Nodup) (high : 512 ≤ blocks.length)
    (partly : indexes.length = (blocks.length - 512) / 1024 + 1)
    (found : indexes[(blocks.length - 512) / 1024]? = some old)
    (entries : ∀ i block, 512 ≤ i → blocks[i]? = some block →
      (i - 512) / 1024 = (blocks.length - 512) / 1024 →
      (db.data old).word ((i - 512) % 1024) = block) (room : 0 < own.room) :
    ∃ result later after indexes',
      closeIndexBlock api old ((blocks.length - 512) % 1024) db = .ok result after ∧
      IndexClosed contract own later db after root limit blocks indexes result indexes' := by
  have wf := contract.wf valid
  have member := List.mem_of_getElem? found
  have oldLive := live old (List.mem_append_right _ member)
  have rootKept := wf.usable_kept _ (wf.live_usable _ (wf.writable_live _ rootWritable))
  by_cases boundary : (blocks.length - 512) % 1024 = 0
  · -- the index block is empty now
    obtain ⟨shorter, size, rfl⟩ : ∃ shorter, shorter.length = (blocks.length - 512) / 1024 ∧
        shorter ++ [old] = indexes :=
      ⟨_, by rw [List.length_take]; omega, take_append_last partly found⟩
    obtain ⟨absent, distinctAfter⟩ := nodup_append_index.mp distinct
    obtain ⟨after, ran, later, same⟩ := contract.free valid oldLive
    refine ⟨0, _, after, shorter, ?_, later, ⟨rootWritable, ?_⟩, by omega, ?_, ?_, ?_, fun _ => rfl,
      ?_, ?_, distinctAfter, same, TableChange.freeIndex distinct rootKept same,
      CommittedKept.freed fun other committed => same other committed.1, ?_, ?_⟩
    · rw [closeIndexBlock, if_pos boundary, Code.bind_ok ran]
      rfl
    · rintro rfl
      exact absent (by simp)
    · rw [size, indexCount]
      omega
    · intro j index _ here
      obtain ⟨inside, _⟩ := List.getElem?_eq_some_iff.mp here
      rw [List.getElem?_append_left inside, here]
    · intro index here
      rw [List.getElem?_eq_none (by omega)] at here
      cases here
    · intro i block low here samePlace
      obtain ⟨inside, _⟩ := List.getElem?_eq_some_iff.mp here
      omega
    · intro block inside
      refine ⟨live block ?_, ?_⟩
      · simp only [List.mem_append] at inside ⊢
        exact inside.imp_right .inl
      · rintro rfl
        exact absent (List.mem_cons_of_mem _ inside)
    · intro j index here
      obtain ⟨inside, _⟩ := List.getElem?_eq_some_iff.mp here
      refine .inl ⟨by rw [List.getElem?_append_left inside, here], and_iff_left ?_⟩
      rintro rfl
      exact absent (by simp [List.mem_of_getElem? here])
    · simp only [Ownership.freed]
      split <;> omega
  · have spans : indexes.length = indexCount blocks.length := by rw [partly, indexCount]; omega
    obtain ⟨ready, later, after, indexes', ran, index, origin⟩ :=
      modifyIndex limit valid rootWritable live distinct partly found entries room
    have laterWf := contract.wf index.valid
    have length := index.length spans
    refine ⟨ready, later, after, indexes', ?_, index.valid, index.rootWritable, ?_, ?_, ?_, ?_, ?_,
      index.entries, index.live, index.distinct, index.same, index.change, index.committed,
      origin, index.room⟩
    · rw [closeIndexBlock, if_neg boundary, ran]
    · exact laterWf.bounded _
        (laterWf.usable_kept _ (laterWf.live_usable _ (laterWf.writable_live _ index.writable)))
    · rw [length, indexCount]
      omega
    · intro j block other here
      obtain ⟨inside, _⟩ := List.getElem?_eq_some_iff.mp here
      rw [← index.before spans (by omega), here]
    · intro block here
      rw [index.last spans, Option.some.injEq] at here
      exact here.symm
    · intro small
      omega

/-- What one round of the loop that shrinks `index_blocks` does to committed
blocks: it zeroes an entry of the last index block when that one is committed. -/
structure IndexShrunk (own later : Ownership) (db after : Db ρ) (index entry : Nat) : Prop where
  cleared : CommittedCleared own later db after
  kept : own.writable index → CommittedKept own later db after
  damaged : ¬own.writable index → (db.data index).word entry ≠ 0 ∧ (after.data index).word entry = 0

/-- One round of the loop that shrinks `index_blocks`. -/
theorem shrinkIndexBlocks_spec {old : Nat}
    (held : HeldTable contract own db root limit (blocks ++ [old]) indexes)
    (high : 512 ≤ blocks.length) (room : 0 < own.room) :
    ∃ index later after indexes', indexes[(blocks.length - 512) / 1024]? = some index ∧
      shrinkIndexBlocks api root db = .ok () after ∧
      HeldTable contract later after root limit blocks indexes' ∧
      TableChange own later db after root limit (blocks ++ [old]) indexes blocks indexes' ∧
      IndexShrunk own later db after index ((blocks.length - 512) % 1024) ∧
      IndexOrigin own later (· = (blocks.length - 512) / 1024) indexes indexes' ∧
      own.room ≤ later.room + 1 := by
  have table := held.table
  have fits := table.fits
  have limited := table.limited
  have count := table.count
  have partly : indexes.length = (blocks.length - 512) / 1024 + 1 := by
    rw [table.spans, indexCount, List.length_append, List.length_singleton]
    omega
  rw [List.length_append, List.length_singleton] at count fits
  set place := (blocks.length - 512) / 1024 with placeDef
  set entry := (blocks.length - 512) % 1024 with entryDef
  obtain ⟨index, found⟩ : ∃ index, indexes[place]? = some index :=
    ⟨_, List.getElem?_eq_getElem (by omega)⟩
  have indexMember := List.mem_of_getElem? found
  obtain ⟨absent, distinct⟩ := nodup_append_block.mp held.distinct
  have indexLive := held.live index (by simp [indexMember])
  have oldLive := held.live old (by simp)
  have oldNotRoot : root ≠ old := fun here => absent (by simp [here])
  have indexNotRoot : index ≠ root := by
    rintro rfl
    exact held.root_not_mem (by simp [indexMember])
  have indexNotOld : index ≠ old := by
    rintro rfl
    exact absent (by simp [indexMember])
  have last : (db.data index).word entry = old :=
    table.entry blocks.length old index high (by rw [List.getElem?_concat_length]) found
  -- the data block is freed and its entry cleared
  obtain ⟨freed, freeRan, freedValid, freedSame⟩ := contract.free held.valid oldLive
  set cleared := freed.setWord index entry 0 with clearedDef
  have rootWritable : (own.freed old).writable root := ⟨held.writable, oldNotRoot⟩
  have clearedValid : contract.Valid (own.freed old) cleared :=
    contract.write freedValid ⟨indexLive, indexNotOld⟩ _
  have clearedIndex : cleared.data index = (db.data index).setWord entry 0 := by
    rw [clearedDef, Db.setWord_data_self, freedSame index (held.kept (by simp [indexMember]))]
  have clearedSame : ∀ other, own.kept other → other ≠ index →
      cleared.data other = db.data other := by
    intro other kept apart
    rw [clearedDef, Db.setWord_data_of_ne apart, freedSame other kept]
  have keptAfter : ∀ other, own.kept other → other ≠ old → (own.freed old).kept other :=
    fun other kept apart => ⟨kept, fun here => apart here.2⟩
  have liveAfter : ∀ block ∈ blocks ++ indexes, (own.freed old).live block := by
    intro block member
    refine ⟨held.live block ?_, ?_⟩
    · simp only [List.mem_append] at member ⊢
      exact member.imp_left .inl
    · rintro rfl
      exact absent (List.mem_cons_of_mem _ member)
  have freedRoom : own.room ≤ (own.freed old).room := by
    simp only [Ownership.freed]
    split <;> omega
  obtain ⟨result, later, closed, indexes', closeRan, close⟩ :=
    closeIndex limit clearedValid rootWritable
    liveAfter distinct high partly found (by
      intro i block low here samePlace
      obtain ⟨inside, _⟩ := List.getElem?_eq_some_iff.mp here
      rw [clearedIndex, Image.word_setWord_of_ne (by omega)]
      exact table.entry i block index low (by rw [List.getElem?_append_left inside, here])
        (by rw [samePlace, found])) (by omega)
  have laterWf := contract.wf close.valid
  have rootLive := laterWf.writable_live _ close.rootWritable
  have rootFreed := keptAfter root held.root_kept oldNotRoot
  have closedRoot : closed.data root = db.data root := by
    rw [close.same root rootFreed, clearedSame root held.root_kept indexNotRoot.symm]
  set after :=
    (closed.setWord root (512 + place) result).setWord root 1023 blocks.length with afterDef
  have rootData : after.data root =
      ((db.data root).setWord (512 + place) result).setWord 1023 blocks.length := by
    rw [afterDef, Db.setWord_data_self, Db.setWord_data_self, closedRoot]
  have others : ∀ other, other ≠ root → after.data other = closed.data other := by
    intro other apart
    rw [afterDef, Db.setWord_data_of_ne apart, Db.setWord_data_of_ne apart]
  have word : ∀ i, (after.data root).word i = if i = 1023 then blocks.length
      else if i = 512 + place then result else (db.data root).word i := by
    intro i
    rw [rootData, Image.word_setWord (by omega), Image.word_setWord close.bounded]
  have header : ∀ offset, 4 * (512 + limit) ≤ offset → offset < 4092 →
      after.data root offset = closed.data root offset := by
    intro offset low high
    rw [rootData, Image.setWord_byte_of_ne (by omega),
      Image.setWord_byte_of_ne (by omega), closedRoot]
  have rootKept : CommittedKept later later closed after := by
    intro block committed
    refine ⟨committed, others block ?_⟩
    rintro rfl
    exact committed.2 close.rootWritable
  refine ⟨index, later, after, indexes', found, ?_, ⟨?_, ?_, close.rootWritable, close.live,
    close.distinct⟩, ?_, ⟨?_, ?_, ?_⟩, ?_, ?_⟩
  · have before : sub32 (blocks.length + 1) 1 = blocks.length := by
      rw [sub32_of_le (by omega) (by omega)]
      omega
    have first : index0 blocks.length = place := index0_eq high (by omega)
    have second : index1 blocks.length = entry := index1_eq high (by omega)
    have third : indexWord place = 512 + place := rfl
    have clearedCount : (cleared.data root).word 1023 = blocks.length + 1 := by
      rw [clearedSame root held.root_kept indexNotRoot.symm, count]
    have closedCount : ((closed.setWord root (512 + place) result).data root).word 1023 =
        blocks.length + 1 := by
      rw [Db.setWord_data_self, Image.word_setWord_of_ne (by omega), closedRoot, count]
    unfold shrinkIndexBlocks
    rw [load_bind, count, before, first, second, third, load_bind, table.index _ _ found, load_bind,
      last, Code.bind_ok freeRan, store_bind, load_bind, clearedCount, before, second,
      Code.bind_ok closeRan, store_bind, load_bind, store_run, closedCount, before]
  · exact contract.write (contract.write close.valid rootLive _) rootLive _
  · refine ⟨?_, limited, by omega, close.spans, ?_, ?_, ?_, ?_⟩
    · rw [word, if_pos rfl]
    · intro i block small here
      obtain ⟨inside, _⟩ := List.getElem?_eq_some_iff.mp here
      rw [word, if_neg (by omega), if_neg (by omega)]
      exact table.direct i block small (by rw [List.getElem?_append_left inside, here])
    · intro j block here
      obtain ⟨inside, _⟩ := List.getElem?_eq_some_iff.mp here
      have bound : j ≤ place := by
        have := close.spans
        rw [indexCount] at this
        omega
      rw [word, if_neg (by omega)]
      by_cases samePlace : j = place
      · subst samePlace
        rw [if_pos rfl]
        exact (close.last block here).symm
      · rw [if_neg (by omega)]
        exact table.index j block (close.earlier j block samePlace here)
    · intro i block place' low here there
      obtain ⟨inside, _⟩ := List.getElem?_eq_some_iff.mp here
      have notRoot : place' ≠ root := by
        rintro rfl
        exact (List.nodup_cons.mp close.distinct).1 (by simp [List.mem_of_getElem? there])
      rw [others place' notRoot]
      by_cases samePlace : (i - 512) / 1024 = place
      · rw [samePlace] at there
        rw [close.last place' there]
        exact close.entries i block low here samePlace
      · have earlier := close.earlier _ _ samePlace there
        have member := List.mem_of_getElem? earlier
        have notIndex : place' ≠ index := by
          rintro rfl
          obtain ⟨within, _⟩ := List.getElem?_eq_some_iff.mp earlier
          have unique := (List.nodup_append.mp (List.nodup_cons.mp distinct).2).2.1
          exact samePlace ((List.getElem?_inj within unique).mp (earlier.trans found.symm))
        have notOld : place' ≠ old := by
          rintro rfl
          exact absent (by simp [member])
        have kept := held.kept (List.mem_append_right (blocks ++ [old]) member)
        rw [close.same place' (keptAfter place' kept notOld), clearedSame place' kept notIndex]
        exact table.entry i block place' low
          (by rw [List.getElem?_append_left inside, here]) earlier
    · intro j bound small
      rw [word, if_neg (by omega)]
      by_cases samePlace : j = place
      · subst samePlace
        rw [if_pos rfl]
        exact close.none bound
      · rw [if_neg (by omega)]
        refine table.clear j ?_ small
        have := close.spans
        rw [indexCount] at this
        omega
  · refine (TableChange.freeBlock held.distinct held.root_kept freedSame).trans
      ((TableChange.writes ?_ ?_).trans (close.change.trans (TableChange.writes ?_ header)
        close.distinct close.distinct fun block member _ => member)
        distinct close.distinct fun block member _ => member)
      distinct close.distinct fun block _ stays => stays
    · intro other _ notIndex
      exact Db.setWord_data_of_ne fun here => notIndex (here ▸ indexMember)
    · intro offset _ _
      rw [clearedDef, Db.setWord_data_of_ne indexNotRoot.symm]
    · exact fun other notRoot _ => others other notRoot
  · have freeing : CommittedKept own (own.freed old) db freed :=
      CommittedKept.freed fun other committed => freedSame other committed.1
    have clearing : CommittedCleared (own.freed old) (own.freed old) freed cleared := by
      intro block committed
      refine ⟨committed, fun i zero => ?_⟩
      by_cases here : block = index
      · subst here
        rw [clearedDef, Db.setWord_data_self, Image.word_setWord (by decide), zero]
        split <;> rfl
      · rw [clearedDef, Db.setWord_data_of_ne here, zero]
    exact freeing.cleared.trans (clearing.trans (close.committed.cleared.trans rootKept.cleared))
  · intro writable
    have clearing : CommittedKept own (own.freed old) db cleared := by
      refine CommittedKept.freed fun other committed => clearedSame other committed.1 ?_
      rintro rfl
      exact committed.2 writable
    exact clearing.trans (close.committed.trans rootKept)
  · intro _
    refine ⟨?_, ?_⟩
    · rw [last]
      exact Nat.ne_of_gt ((contract.wf held.valid).positive old (held.kept (by simp)))
    · rw [others index indexNotRoot,
        close.same index (keptAfter index (held.kept (by simp [indexMember])) indexNotOld),
        clearedIndex, Image.word_setWord_self (by decide)]
  · refine IndexOrigin.trans ?_ close.origin (fun _ here => here) fun _ here => here
    intro j other here
    refine .inl ⟨here, and_iff_left ?_⟩
    rintro rfl
    exact absent (by simp [List.mem_of_getElem? here])
  · have := close.room
    omega

end EverDb
