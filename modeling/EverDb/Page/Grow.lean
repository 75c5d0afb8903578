import EverDb.Page.Change

/-!
# Growing a page table

The two loop bodies of `page_resize` that add a data block: each appends a fresh
block to the list and writes nothing but the root and writable index blocks.
-/

namespace EverDb

open Foundation

variable {ρ : Type} {api : BlockApi (Db ρ)} {contract : BlockContract api} {own : Ownership}
  {db : Db ρ} {root limit : Nat} {blocks indexes : List Nat}

/-- One round of the loop that grows `data_blocks`. -/
theorem growDataBlocks_spec (held : HeldTable contract own db root limit blocks indexes)
    (low : blocks.length < 512) (room : 0 < own.room) :
    ∃ new after, growDataBlocks api root db = .ok () after ∧
      HeldTable contract (own.taken new) after root limit (blocks ++ [new]) indexes ∧
      TableChange own (own.taken new) db after root limit blocks indexes (blocks ++ [new]) indexes ∧
      CommittedKept own (own.taken new) db after := by
  obtain ⟨new, taken, ran, fresh, valid, same⟩ := contract.allocate held.valid room
  have table := held.table
  have newBounded : new < 4294967296 := (contract.wf valid).bounded new (.inr rfl)
  have rootWritable : (own.taken new).writable root := .inl held.writable
  have rootLive := (contract.wf valid).writable_live _ rootWritable
  have noIndexes : indexes = [] := by
    apply List.eq_nil_of_length_eq_zero
    rw [table.spans, indexCount]
    omega
  have counted : u32 (blocks.length + 1) = blocks.length + 1 := u32_of_lt (by omega)
  set after := (taken.setWord root 1023 (blocks.length + 1)).setWord root blocks.length new
    with afterDef
  have final : after.data root =
      ((db.data root).setWord 1023 (blocks.length + 1)).setWord blocks.length new := by
    rw [afterDef, Db.setWord_data_self, Db.setWord_data_self, same root held.root_kept]
  have others : ∀ other, own.kept other → other ≠ root → after.data other = db.data other := by
    intro other kept apart
    rw [afterDef, Db.setWord_data_of_ne apart, Db.setWord_data_of_ne apart, same other kept]
  have word : ∀ i, (after.data root).word i = if i = blocks.length then new
      else if i = 1023 then blocks.length + 1 else (db.data root).word i := by
    intro i
    rw [final, Image.word_setWord newBounded, Image.word_setWord (by omega)]
  refine ⟨new, after, ?_, ⟨?_, ?_, rootWritable, ?_, ?_⟩, ?_, ?_⟩
  · rw [growDataBlocks, Code.bind_ok ran, load_bind, same root held.root_kept, table.count, counted,
      store_bind, store_run]
  · exact contract.write (contract.write valid rootLive _) rootLive _
  · subst noIndexes
    refine ⟨?_, table.limited, ?_, ?_, ?_, by simp, by simp, ?_⟩
    · rw [word, if_neg (by omega), if_pos rfl, List.length_append, List.length_singleton]
    · rw [List.length_append, List.length_singleton]
      omega
    · rw [List.length_append, List.length_singleton, indexCount, List.length_nil]
      omega
    · intro i block small here
      rw [word]
      by_cases last : i = blocks.length
      · subst last
        rw [List.getElem?_concat_length] at here
        simpa using here
      · rw [if_neg last, if_neg (by omega)]
        obtain ⟨inside, _⟩ := List.getElem?_eq_some_iff.mp here
        rw [List.length_append, List.length_singleton] at inside
        rw [List.getElem?_append_left (by omega)] at here
        exact table.direct i block small here
    · intro j _ bounded
      have := table.limited
      rw [word, if_neg (by omega), if_neg (by omega)]
      exact table.clear j (by simp) bounded
  · intro block member
    simp only [List.mem_append, List.mem_singleton] at member
    rcases member with (old | here) | old
    · exact .inl (held.live block (by simp [old]))
    · exact .inr here
    · exact .inl (held.live block (by simp [old]))
  · exact nodup_append_block.mpr ⟨held.not_mem_of_fresh fresh, held.distinct⟩
  · refine TableChange.append fresh room (fun other kept apart _ => others other kept apart) ?_
    intro offset low high
    rw [final, Image.setWord_byte_of_ne (by omega), Image.setWord_byte_of_ne (by omega)]
  · refine CommittedKept.taken fresh fun other committed => others other committed.1 ?_
    rintro rfl
    exact committed.2 held.writable

/-- An index block made ready for the entry of data block `blocks.length`. -/
structure IndexReady (contract : BlockContract api) (own later : Ownership) (db after : Db ρ)
    (root limit : Nat) (blocks indexes : List Nat) (ready : Nat) (indexes' : List Nat) : Prop where
  valid : contract.Valid later after
  writable : later.writable ready
  rootWritable : later.writable root
  shape : indexes' = indexes.take ((blocks.length - 512) / 1024) ++ [ready]
  entries : ∀ i block, 512 ≤ i → blocks[i]? = some block →
    (i - 512) / 1024 = (blocks.length - 512) / 1024 →
    (after.data ready).word ((i - 512) % 1024) = block
  live : ∀ block ∈ blocks ++ indexes', later.live block
  distinct : (root :: (blocks ++ indexes')).Nodup
  same : ∀ other, own.kept other → after.data other = db.data other
  kept : ∀ other, own.kept other → later.kept other
  change : TableChange own later db after root limit blocks indexes blocks indexes'
  committed : CommittedKept own later db after
  room : own.room ≤ later.room + 1

namespace IndexReady

variable {later : Ownership} {after : Db ρ} {ready : Nat} {indexes' : List Nat}

theorem length
    (index : IndexReady contract own later db after root limit blocks indexes ready indexes')
    (spans : indexes.length = indexCount blocks.length) :
    indexes'.length = (blocks.length - 512) / 1024 + 1 := by
  rw [index.shape, List.length_append, List.length_take, List.length_singleton, spans, indexCount]
  omega

theorem last
    (index : IndexReady contract own later db after root limit blocks indexes ready indexes')
    (spans : indexes.length = indexCount blocks.length) :
    indexes'[(blocks.length - 512) / 1024]? = some ready := by
  have size :
      (indexes.take ((blocks.length - 512) / 1024)).length = (blocks.length - 512) / 1024 := by
    rw [List.length_take, spans, indexCount]
    omega
  rw [index.shape, List.getElem?_append_right (by omega), size, Nat.sub_self]
  rfl

theorem before
    (index : IndexReady contract own later db after root limit blocks indexes ready indexes')
    (spans : indexes.length = indexCount blocks.length) {j : Nat}
    (small : j < (blocks.length - 512) / 1024) : indexes'[j]? = indexes[j]? := by
  have size :
      (indexes.take ((blocks.length - 512) / 1024)).length = (blocks.length - 512) / 1024 := by
    rw [List.length_take, spans, indexCount]
    omega
  rw [index.shape, List.getElem?_append_left (by omega), List.getElem?_take_of_lt small]

/-- An index block before the last one is another block. -/
theorem before_ne
    (index : IndexReady contract own later db after root limit blocks indexes ready indexes')
    {j other : Nat} (small : j < (blocks.length - 512) / 1024) (found : indexes[j]? = some other) :
    other ≠ ready := by
  rintro rfl
  have distinct := index.distinct
  rw [index.shape, ← List.append_assoc, ← List.cons_append] at distinct
  have earlier : other ∈ indexes.take ((blocks.length - 512) / 1024) := by
    rw [List.mem_iff_getElem?]
    exact ⟨j, by rw [List.getElem?_take_of_lt small, found]⟩
  exact (List.nodup_append.mp distinct).2.2 other (by simp [earlier]) other (by simp) rfl

end IndexReady

/-- Making the last index block writable. -/
theorem modifyIndex (limit : Nat) {old : Nat} (valid : contract.Valid own db)
    (rootWritable : own.writable root) (live : ∀ block ∈ blocks ++ indexes, own.live block)
    (distinct : (root :: (blocks ++ indexes)).Nodup)
    (partly : indexes.length = (blocks.length - 512) / 1024 + 1)
    (found : indexes[(blocks.length - 512) / 1024]? = some old)
    (entries : ∀ i block, 512 ≤ i → blocks[i]? = some block →
      (i - 512) / 1024 = (blocks.length - 512) / 1024 →
      (db.data old).word ((i - 512) % 1024) = block) (room : 0 < own.room) :
    ∃ ready later after indexes', api.modify old db = .ok ready after ∧
      IndexReady contract own later db after root limit blocks indexes ready indexes' ∧
      IndexOrigin own later (· = (blocks.length - 512) / 1024) indexes indexes' := by
  have wf := contract.wf valid
  have member := List.mem_of_getElem? found
  have oldLive := live old (List.mem_append_right _ member)
  have rootKept := wf.usable_kept _ (wf.live_usable _ (wf.writable_live _ rootWritable))
  by_cases writable : own.writable old
  · have shape := take_append_last partly found
    exact ⟨old, own, db, indexes, contract.modify_writable valid writable, ⟨valid, writable,
      rootWritable, shape.symm, entries, live, distinct, fun _ _ => rfl, fun _ kept => kept,
      TableChange.refl _ _ _ _ _ _, CommittedKept.refl _ _, by omega⟩, IndexOrigin.refl _ _ _⟩
  · obtain ⟨copy, after, ran, fresh, later, copied, same⟩ :=
      contract.modify_copy valid (wf.live_usable _ oldLive) writable room
    have kept : ∀ other ∈ root :: (blocks ++ indexes), own.kept other := by
      intro other inside
      rcases List.mem_cons.mp inside with rfl | inside
      · exact rootKept
      · exact wf.usable_kept _ (wf.live_usable _ (live other inside))
    refine ⟨copy, _, after, _, ran, ⟨later, .inr rfl, .inl rootWritable, rfl, ?_, ?_, ?_, same,
      fun _ kept => .inl kept, ?_, ?_, ?_⟩, ?_⟩
    · rw [copied]
      exact entries
    · intro block inside
      simp only [← List.append_assoc, List.mem_append, List.mem_singleton] at inside
      rcases inside with inside | here
      · refine .inl ⟨live block ?_, ?_⟩
        · exact List.mem_append.mpr (inside.imp_right List.mem_of_mem_take)
        · rintro rfl
          exact not_mem_before_last distinct partly found (List.mem_append.mpr inside)
      · exact .inr here
    · refine nodup_append_index.mpr ⟨?_, ?_⟩
      · intro inside
        refine fresh (kept copy ?_)
        simp only [List.mem_cons, List.mem_append] at inside ⊢
        exact inside.imp_right (Or.imp_right List.mem_of_mem_take)
      · exact distinct.sublist (List.Sublist.cons_cons _
          (List.Sublist.append (List.Sublist.refl _) (List.take_sublist _ _)))
    · exact TableChange.copyIndex fresh writable member rootKept same
    · exact CommittedKept.copied fresh fun other committed => same other committed.1
    · simp only [Ownership.copied]
      omega
    · intro j index here
      obtain ⟨inside, _⟩ := List.getElem?_eq_some_iff.mp here
      rw [List.length_append, List.length_take, List.length_singleton] at inside
      by_cases last : j = (blocks.length - 512) / 1024
      · subst last
        rw [List.getElem?_append_right (by rw [List.length_take]; omega), List.length_take,
          Nat.min_eq_left (by omega), Nat.sub_self, List.getElem?_singleton, if_pos rfl,
          Option.some.injEq] at here
        exact .inr ⟨.inr here.symm, rfl, old, found, writable⟩
      · rw [List.getElem?_append_left (by rw [List.length_take]; omega),
          List.getElem?_take_of_lt (by omega)] at here
        refine .inl ⟨here, or_iff_left ?_⟩
        rintro rfl
        exact fresh (kept index (by simp [List.mem_of_getElem? here]))

/-- The choice of an index block in the loop that grows `index_blocks`. -/
theorem indexReady (held : HeldTable contract own db root limit blocks indexes)
    (high : 512 ≤ blocks.length) (below : blocks.length < 512 + 1024 * limit)
    (room : 0 < own.room) :
    ∃ ready later after indexes',
      openIndexBlock api ((db.data root).word (512 + (blocks.length - 512) / 1024)) db =
        .ok ready after ∧
      IndexReady contract own later db after root limit blocks indexes ready indexes' := by
  have table := held.table
  have spans := table.spans
  have wf := contract.wf held.valid
  set place := (blocks.length - 512) / 1024 with placeDef
  by_cases boundary : (blocks.length - 512) % 1024 = 0
  · -- a fresh index block
    have full : indexes.length = place := by rw [spans, indexCount]; omega
    have unused : (db.data root).word (512 + place) = 0 :=
      table.clear place (by omega) (by omega)
    obtain ⟨ready, after, ran, fresh, valid, same⟩ := contract.allocate held.valid room
    have shape : indexes.take place = indexes := List.take_of_length_le (by omega)
    refine ⟨ready, _, after, indexes ++ [ready], by rw [openIndexBlock, unused, if_pos rfl, ran],
      valid, .inr rfl,
      .inl held.writable, by rw [shape], ?_, ?_, ?_, same, fun _ kept => .inl kept, ?_, ?_, ?_⟩
    · intro i block low here earlier
      obtain ⟨inside, _⟩ := List.getElem?_eq_some_iff.mp here
      omega
    · intro block member
      simp only [List.mem_append, List.mem_singleton] at member
      rcases member with old | old | here
      · exact .inl (held.live block (by simp [old]))
      · exact .inl (held.live block (by simp [old]))
      · exact .inr here
    · exact nodup_append_index.mpr ⟨held.not_mem_of_fresh fresh, held.distinct⟩
    · exact TableChange.appendIndex fresh room held.root_kept same
    · exact CommittedKept.taken fresh fun other committed => same other committed.1
    · simp only [Ownership.taken]
      omega
  · -- the last index block has room
    have partly : indexes.length = place + 1 := by rw [spans, indexCount]; omega
    obtain ⟨old, found⟩ : ∃ old, indexes[place]? = some old :=
      ⟨_, List.getElem?_eq_getElem (by omega)⟩
    have positive := wf.positive old (held.kept (by simp [List.mem_of_getElem? found]))
    obtain ⟨ready, later, after, indexes', ran, index, _⟩ :=
      modifyIndex limit held.valid held.writable held.live
      held.distinct partly found (fun i block low here samePlace =>
        table.entry i block old low here (by rw [samePlace, found])) room
    refine ⟨ready, later, after, indexes', ?_, index⟩
    rw [openIndexBlock, table.index place old found, if_neg (Nat.ne_of_gt positive), ran]

/-- One round of the loop that grows `index_blocks`. -/
theorem growIndexBlocks_spec (held : HeldTable contract own db root limit blocks indexes)
    (high : 512 ≤ blocks.length) (below : blocks.length < 512 + 1024 * limit)
    (room : 2 ≤ own.room) :
    ∃ new later after indexes', growIndexBlocks api root db = .ok () after ∧
      HeldTable contract later after root limit (blocks ++ [new]) indexes' ∧
      TableChange own later db after root limit blocks indexes (blocks ++ [new]) indexes' ∧
      CommittedKept own later db after ∧ own.room ≤ later.room + 2 := by
  obtain ⟨ready, middle, opened, indexes', chosen, index⟩ := indexReady held high below (by omega)
  have table := held.table
  have limited := table.limited
  have spans := table.spans
  set place := (blocks.length - 512) / 1024 with placeDef
  -- the new block number is stored in the root
  set recorded := opened.setWord root (512 + place) ready with recordedDef
  have recordedValid : contract.Valid middle recorded := 
    contract.write index.valid ((contract.wf index.valid).writable_live _ index.rootWritable) _
  have middleRoom := index.room
  obtain ⟨new, taken, ran, fresh, valid, same⟩ := contract.allocate recordedValid (by omega)
  have wf := contract.wf valid
  have newBounded : new < 4294967296 := wf.bounded new (.inr rfl)
  have middleWf := contract.wf index.valid
  have readyKept : middle.kept ready :=
    middleWf.usable_kept _ (middleWf.live_usable _ (middleWf.writable_live _ index.writable))
  have rootKept : middle.kept root :=
    middleWf.usable_kept _ (middleWf.live_usable _ (middleWf.writable_live _ index.rootWritable))
  have readyBounded : ready < 4294967296 := middleWf.bounded ready readyKept
  have readyMember : ready ∈ indexes' := by rw [index.shape]; simp
  have readyNotRoot : ready ≠ root := by
    rintro rfl
    exact (List.nodup_cons.mp index.distinct).1 (by simp [readyMember])
  have counted : u32 (blocks.length + 1) = blocks.length + 1 := u32_of_lt (by omega)
  set after := (taken.setWord ready ((blocks.length - 512) % 1024) new).setWord root 1023
    (blocks.length + 1) with afterDef
  have rootData : after.data root =
      ((db.data root).setWord (512 + place) ready).setWord 1023 (blocks.length + 1) := by
    rw [afterDef, Db.setWord_data_self, Db.setWord_data_of_ne readyNotRoot.symm, same root rootKept,
      recordedDef, Db.setWord_data_self, index.same root held.root_kept]
  have readyData : after.data ready =
      (opened.data ready).setWord ((blocks.length - 512) % 1024) new := by
    rw [afterDef, Db.setWord_data_of_ne readyNotRoot, Db.setWord_data_self, same ready readyKept,
      recordedDef, Db.setWord_data_of_ne readyNotRoot]
  have others : ∀ other, middle.kept other → other ≠ root → other ≠ ready →
      after.data other = opened.data other := by
    intro other kept notRoot notReady
    rw [afterDef, Db.setWord_data_of_ne notRoot, Db.setWord_data_of_ne notReady, same other kept,
      recordedDef, Db.setWord_data_of_ne notRoot]
  have word : ∀ i, (after.data root).word i = if i = 1023 then blocks.length + 1
      else if i = 512 + place then ready else (db.data root).word i := by
    intro i
    rw [rootData, Image.word_setWord (by omega), Image.word_setWord readyBounded]
  have indexLength : indexes'.length = place + 1 := index.length spans
  have indexLast : indexes'[place]? = some ready := index.last spans
  have indexBefore : ∀ j, j < place → indexes'[j]? = indexes[j]? :=
    fun j small => index.before spans small
  have distinctAfter : (root :: (blocks ++ [new] ++ indexes')).Nodup := by
    refine nodup_append_block.mpr ⟨?_, index.distinct⟩
    intro member
    rcases List.mem_cons.mp member with rfl | old
    · exact fresh rootKept
    · exact fresh (middleWf.usable_kept _ (middleWf.live_usable _ (index.live new old)))
  refine ⟨new, middle.taken new, after, indexes', ?_, ⟨?_, ?_, ?_, ?_, ?_⟩, ?_, ?_, ?_⟩
  · have later : ((taken.setWord ready ((blocks.length - 512) % 1024) new).data root).word 1023 =
        blocks.length := by
      rw [Db.setWord_data_of_ne readyNotRoot.symm, same root rootKept, recordedDef,
        Db.setWord_data_self, Image.word_setWord_of_ne (by omega), index.same root held.root_kept,
        table.count]
    have first : index0 blocks.length = place := index0_eq high (by omega)
    have second : index1 blocks.length = (blocks.length - 512) % 1024 := index1_eq high (by omega)
    unfold growIndexBlocks
    rw [load_bind, table.count, load_bind, first, second]
    simp only [indexWord, levelOne]
    rw [Code.bind_ok chosen, store_bind, Code.bind_ok ran, store_bind, load_bind, store_run, later,
      counted]
  · exact contract.write (contract.write valid (.inl (middleWf.writable_live _ index.writable)) _)
      (.inl (middleWf.writable_live _ index.rootWritable)) _
  · refine ⟨?_, limited, ?_, ?_, ?_, ?_, ?_, ?_⟩
    · rw [word, if_pos rfl, List.length_append, List.length_singleton]
    · rw [List.length_append, List.length_singleton]
      omega
    · rw [indexLength, List.length_append, List.length_singleton, indexCount]
      omega
    · intro i block small here
      rw [List.getElem?_append_left (by omega)] at here
      rw [word, if_neg (by omega), if_neg (by omega)]
      exact table.direct i block small here
    · intro j block here
      obtain ⟨inside, _⟩ := List.getElem?_eq_some_iff.mp here
      rw [word, if_neg (by omega)]
      by_cases last : j = place
      · subst last
        rw [if_pos rfl]
        rw [indexLast] at here
        simpa using here
      · rw [if_neg (by omega)]
        rw [indexBefore j (by omega)] at here
        exact table.index j block here
    · intro i block index' low here there
      by_cases last : i = blocks.length
      · subst last
        rw [List.getElem?_concat_length, Option.some.injEq] at here
        rw [← placeDef, indexLast, Option.some.injEq] at there
        rw [← there, readyData, Image.word_setWord_self newBounded, here]
      · obtain ⟨inside, _⟩ := List.getElem?_eq_some_iff.mp here
        rw [List.length_append, List.length_singleton] at inside
        rw [List.getElem?_append_left (by omega)] at here
        by_cases samePlace : (i - 512) / 1024 = place
        · rw [samePlace, indexLast, Option.some.injEq] at there
          rw [← there, readyData, Image.word_setWord_of_ne (by omega)]
          exact index.entries i block low here samePlace
        · have member := List.mem_of_getElem? there
          rw [indexBefore _ (by omega)] at there
          have old := List.mem_of_getElem? there
          have kept := held.kept (List.mem_append_right blocks old)
          have notReady := index.before_ne (show (i - 512) / 1024 < place by omega) there
          have notRoot : index' ≠ root := by
            rintro rfl
            exact held.root_not_mem (List.mem_append_right _ old)
          rw [others index' (index.kept index' kept) notRoot notReady, index.same index' kept]
          exact table.entry i block index' low here there
    · intro j bound small
      rw [word, if_neg (by omega), if_neg (by omega)]
      refine table.clear j ?_ small
      rw [spans, indexCount]
      omega
  · exact .inl index.rootWritable
  · intro block member
    simp only [List.mem_append, List.mem_singleton] at member
    rcases member with (old | here) | old
    · exact .inl (index.live block (by simp [old]))
    · exact .inr here
    · exact .inl (index.live block (by simp [old]))
  · exact distinctAfter
  · refine index.change.trans (TableChange.append fresh (by omega) ?_ ?_) index.distinct ?_ ?_
    · intro other kept notRoot notIndex
      exact others other kept notRoot fun here => notIndex (here ▸ readyMember)
    · intro offset low high
      rw [rootData, Image.setWord_byte_of_ne (by omega), Image.setWord_byte_of_ne (by omega),
        index.same root held.root_kept]
    · exact distinctAfter
    · exact fun block old _ => old
  · refine index.committed.trans (CommittedKept.taken fresh fun other committed => ?_)
    refine others other committed.1 ?_ ?_
    · rintro rfl
      exact committed.2 index.rootWritable
    · rintro rfl
      exact committed.2 index.writable
  · simp only [Ownership.taken]
    omega

end EverDb
