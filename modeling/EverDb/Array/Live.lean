import EverDb.Array.Purity
import EverDb.Txn.Progress

/-!
# Reading an array in an open transaction

A paged array is read through `page_write_host_index`, which copies the page. The
copies are dropped, but the blocks of the array keep their bytes, so the element is
the stored one and the array stays as it was.
-/

namespace EverDb

open Foundation

/-- An array of an open transaction, with its blocks in use. -/
inductive LiveArray (db : EdbDb) (l : Ledger) (root size : Nat) (elems : List (List UInt8)) : Prop
  | small (used : l.Used root) (count : ptNblocks db root = 0)
      (header : ArrayHeader db root size elems.length) (fits : elems.length ≤ smallCapacity size)
      (elements : ∀ i element, elems[i]? = some element →
        (db.data root).slice (i * size) size = element)
  | paged (blocks indexes : List Nat) (used : ∀ block ∈ root :: (blocks ++ indexes), l.Used block)
      (table : PageTable db root 509 blocks indexes) (nonempty : blocks ≠ [])
      (header : ArrayHeader db root size elems.length)
      (fits : elems.length ≤ blocks.length * itemsPerBlock size)
      (elements : ∀ i element block, elems[i]? = some element →
        blocks[i / itemsPerBlock size]? = some block →
        (db.data block).slice (i % itemsPerBlock size * size) size = element)

variable {base : Books} {spent depth root size i : Nat} {db after : EdbDb} {l l' : Ledger}
  {elems : List (List UInt8)}

namespace LiveArray

theorem root_used (live : LiveArray db l root size elems) : l.Used root := by
  cases live with
  | small used count header fits elements => exact used
  | paged blocks indexes used table nonempty header fits elements => exact used root (by simp)

theorem header (live : LiveArray db l root size elems) : ArrayHeader db root size elems.length := by
  cases live with
  | small used count header fits elements => exact header
  | paged blocks indexes used table nonempty header fits elements => exact header

/-- An array whose root has moved. -/
theorem moved (live : LiveArray db l root size elems) {new : Nat} (used' : l'.Used new)
    (same : after.data new = db.data root) (kept : ∀ block, l.Used block → l'.Used block)
    (data : ∀ block, l.Used block → after.data block = db.data block) :
    LiveArray after l' new size elems := by
  cases live with
  | small used count header fits elements =>
      refine .small used' ?_ ⟨?_, ?_⟩ fits ?_
      · rw [ptNblocks, same]
        exact count
      · rw [same]
        exact header.itemSize
      · rw [same]
        exact header.length
      · rw [same]
        exact elements
  | paged blocks indexes used table nonempty header fits elements =>
      have sameAt :
          ∀ block ∈ blocks ++ indexes, after.data block = db.data block := fun block member =>
        data block (used block (by simp [member]))
      refine .paged blocks indexes ?_ ?_ nonempty ⟨?_, ?_⟩ fits ?_
      · intro block member
        rcases List.mem_cons.mp member with rfl | inside
        · exact used'
        · exact kept block (used block (by simp [inside]))
      · exact {
          count := by rw [same]; exact table.count
          limited := table.limited
          fits := table.fits
          spans := table.spans
          direct := by rw [same]; exact table.direct
          index := by rw [same]; exact table.index
          entry := by
            intro i block index low held found
            rw [sameAt index (by simp [List.mem_of_getElem? found])]
            exact table.entry i block index low held found
          clear := by rw [same]; exact table.clear }
      · rw [same]
        exact header.itemSize
      · rw [same]
        exact header.length
      · intro i element block found place
        rw [sameAt block (by simp [List.mem_of_getElem? place])]
        exact elements i element block found place

/-- Progress keeps the array. -/
theorem progress (live : LiveArray db l root size elems)
    (progress : Progress base spent db l after l') :
    LiveArray after l' root size elems :=
  live.moved (progress.used root live.root_used) (progress.data root live.root_used)
    progress.used progress.data

end LiveArray

/-- The page of an index is asked for: a writable copy of it, with the root and the
index block copied on the way. -/
theorem pageWriteHostIndex_used (tracks : Tracks db base l) (working : l.Working base) (depth : Nat)
    {blocks indexes : List Nat} {block : Nat} (table : PageTable db root 509 blocks indexes)
    (used : ∀ block ∈ root :: (blocks ++ indexes), l.Used block) (found : blocks[i]? = some block)
    (fits : takesFit 3 l.free.length l.nblocks) :
    ∃ page after l', pageWriteHostIndex (edbApi (depth + 2)) root i db = .ok page after ∧
      Progress base 3 db l after l' ∧ after.data page = db.data block := by
  obtain ⟨inside, _⟩ := List.getElem?_eq_some_iff.mp found
  have bounded := table.length_lt
  have rootUsed := used root (by simp)
  have blockUsed := used block (by simp [List.mem_of_getElem? found])
  have nonempty : blocks.length ≠ 0 := by omega
  obtain ⟨one, middle, mid, opened⟩ :=
    tracks.modify_used working depth rootUsed (takesFit_less (takesFit_less fits))
  have first := opened.progress
  have room : takesFit 2 mid.free.length mid.nblocks := first.room 2 fits
  by_cases low : i < levelOne
  · have direct : (db.data root).word i = block := table.direct i block low found
    obtain ⟨page, after, last, copied⟩ :=
      first.tracks.modify_used first.working depth (first.used block blockUsed) (takesFit_less room)
    have total := first.trans copied.progress
    refine ⟨page, after, last, ?_, ?_, ?_⟩
    · unfold pageWriteHostIndex
      rw [load_bind, table.count, if_neg (by omega), if_neg nonempty, if_pos low,
        Code.bind_ok opened.ran, load_bind, opened.copied, direct, copied.ran]
    · exact (total.trans (.refl total.tracks total.working 1))
    · rw [copied.copied, first.data block blockUsed]
  · have high : 512 ≤ i := Nat.le_of_not_lt low
    obtain ⟨index, indexFound⟩ := table.exists_index high inside
    have indexUsed := used index (by simp [List.mem_of_getElem? indexFound])
    have entry := table.entry i block index high found indexFound
    have indexAt : (db.data root).word (indexWord (index0 i)) = index := by
      rw [index0_eq high (by omega), indexWord, levelOne]
      exact table.index _ _ indexFound
    obtain ⟨two, second, snd, copiedIndex⟩ :=
      first.tracks.modify_used first.working depth (first.used index indexUsed) (takesFit_less room)
    have both := first.trans copiedIndex.progress
    obtain ⟨page, after, last, copied⟩ :=
      both.tracks.modify_used both.working depth (both.used block blockUsed) (both.room 1 fits)
    refine ⟨page, after, last, ?_, both.trans copied.progress, ?_⟩
    · unfold pageWriteHostIndex
      rw [load_bind, table.count, if_neg (by omega), if_neg nonempty, if_neg low,
        Code.bind_ok opened.ran,
        load_bind, opened.copied, indexAt, Code.bind_ok copiedIndex.ran, load_bind,
        copiedIndex.copied,
        first.data index indexUsed, index1_eq high (by omega), entry, copied.ran]
    · rw [copied.copied, both.data block blockUsed]

/-- `array_get` reads the stored element and keeps the blocks in use. -/
theorem arrayGet_live (tracks : Tracks db base l) (working : l.Working base) (depth i : Nat)
    (live : LiveArray db l root size elems) (fits : takesFit 3 l.free.length l.nblocks) :
    ∃ after l', Progress base 3 db l after l' ∧
      arrayGet (edbApi (depth + 2)) root i db =
        match elems[i]? with
        | some element => .ok element after
        | none => .error errArrayIndexOutOfBounds after := by
  have length : (db.data root).word lengthWord = elems.length := live.header.length
  by_cases inside : i < elems.length
  · have found := List.getElem?_eq_getElem inside
    rw [found]
    cases live with
    | small used count header fits elements =>
        refine ⟨db, l, .refl tracks working 3, ?_⟩
        rw [arrayGet_inline (edbApi (depth + 2)) count header.itemSize
          (by rw [arrayLength, length]; exact inside), elements i _ found]
    | paged blocks indexes used table nonempty header capacity elements =>
        have positive : 0 < size := by
          by_contra none
          have zero : size = 0 := by omega
          rw [zero, itemsPerBlock, Nat.div_zero, Nat.mul_zero] at capacity
          omega
        have some : blocks.length ≠ 0 := fun none => nonempty (List.eq_nil_of_length_eq_zero none)
        have within : i / itemsPerBlock size < blocks.length :=
          Nat.div_lt_of_lt_mul (by rw [Nat.mul_comm]; omega)
        have here := List.getElem?_eq_getElem within
        obtain ⟨page, after, last, ran, progress, copied⟩ :=
          pageWriteHostIndex_used tracks working depth table used here fits
        refine ⟨after, last, progress, ?_⟩
        have rootUsed := used root (by simp)
        have itemSize : (after.data root itemSizeByte).toNat = size := by
          rw [progress.data root rootUsed]
          exact header.itemSize
        have found' :
            orAbort (pageWriteHostIndex (edbApi (depth + 2)) root (i / itemsPerBlock size)) db =
            .ok page after := by
          unfold orAbort
          rw [ran]
        have place : arrayData (edbApi (depth + 2)) root i db =
            .ok (Option.some (page, i % itemsPerBlock size * size)) after := by
          unfold arrayData
          rw [load_bind, length, if_neg (by omega), load_bind, table.count,
            Code.gets_bind, ptItemSize,
            header.itemSize, if_neg some, Code.bind_ok (divide_run positive db),
            Code.bind_ok found',
            Code.gets_bind, ptItemSize, itemSize]
          rfl
        unfold arrayGet
        rw [Code.bind_ok place]
        simp only [Code.gets_run, ptItemSize, itemSize, copied]
        rw [elements i _ _ found here]
  · refine ⟨db, l, .refl tracks working 3, ?_⟩
    rw [List.getElem?_eq_none (by omega)]
    exact arrayGet_outside (edbApi (depth + 2)) (by rw [arrayLength, length]; omega)

end EverDb
