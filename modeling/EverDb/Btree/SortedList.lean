import EverDb.Btree.PopNode

/-!
# The node list is a sorted list

`list_find`, `list_insert` and `list_remove` on a node with ascending keys: the search
ends at the first key that is not below the one sought, insertion there keeps the order,
and removal takes out one entry and zeroes the place behind the others.
-/

namespace EverDb

open Foundation Bt

/-- The two bounds of `list_find` after at most `rounds` rounds. -/
def listFindBounds (bt : Image) (k : Nat) : Nat → Nat → Nat → Nat × Nat
  | 0, b, e => (b, e)
  | rounds + 1, b, e =>
      if b < e then
        let m := (b + e) / 2
        if k > key bt m then listFindBounds bt k rounds (m + 1) e
          else listFindBounds bt k rounds b m
      else (b, e)

/-- Keys in strictly ascending order. -/
def Ascends (list : List (Nat × Nat)) : Prop := list.Pairwise fun left right => left.1 < right.1

/-- The list operations on one node do what a sorted list does. -/
structure SortedList (bt : Image) : Prop where
  /-- The search ends, its bounds met, within as many rounds as there are keys. -/
  ends : ∀ k, listFindBounds bt k (selfSize bt) 0 (selfSize bt) = (listFind bt k, listFind bt k)
  finds : ∀ k, listFind bt k ≤ selfSize bt ∧ (∀ i, i < listFind bt k → key bt i < k) ∧
    (listFind bt k < selfSize bt → k ≤ key bt (listFind bt k))
  inserts : ∀ k value, selfSize bt < 510 → k < 4294967296 → value < 4294967296 →
    (∀ entry ∈ entries bt, entry.1 ≠ k) →
      Ascends (entries (listInsert bt (listFind bt k) k value)) ∧
        entries (listInsert bt (listFind bt k) k value) =
          (entries bt).take (listFind bt k) ++ (k, value) :: (entries bt).drop (listFind bt k)
  removes : ∀ j, j < selfSize bt →
    entries (listRemove bt j) = (entries bt).take j ++ (entries bt).drop (j + 1) ∧
      entry (listRemove bt j) (selfSize bt - 1) = (0, 0)
  restores : ∀ k value, selfSize bt < 510 → k < 4294967296 → value < 4294967296 →
    (∀ entry ∈ entries bt, entry.1 ≠ k) →
      entries (listRemove (listInsert bt (listFind bt k) k value) (listFind bt k)) = entries bt

variable {bt : Image} {j k value rounds b e : Nat}

/-- The lower bound is what the search returns. -/
theorem listFindBounds_fst : (listFindBounds bt k rounds b e).1 = listFindFrom bt k rounds b e := by
  induction rounds generalizing b e with
  | zero => rfl
  | succ rounds later =>
      unfold listFindBounds listFindFrom
      by_cases goes : b < e
      · rw [if_pos goes, if_pos goes]
        dsimp only
        by_cases right : k > key bt ((b + e) / 2)
        · rw [if_pos right, if_pos right]
          exact later
        · rw [if_neg right, if_neg right]
          exact later
      · rw [if_neg goes, if_neg goes]

/-- Each round brings the bounds closer, so enough rounds make them meet. -/
theorem listFindBounds_meet (ordered : b ≤ e) (enough : e - b ≤ rounds) :
    (listFindBounds bt k rounds b e).1 = (listFindBounds bt k rounds b e).2 := by
  induction rounds generalizing b e with
  | zero =>
      have met : b = e := by omega
      exact met
  | succ rounds later =>
      unfold listFindBounds
      by_cases goes : b < e
      · rw [if_pos goes]
        dsimp only
        by_cases right : k > key bt ((b + e) / 2)
        · rw [if_pos right]
          exact later (by omega) (by omega)
        · rw [if_neg right]
          exact later (by omega) (by omega)
      · rw [if_neg goes]
        have met : b = e := by omega
        exact met

theorem insertIdx_eq_split {list : List (Nat × Nat)} (new : Nat × Nat) (place : j ≤ list.length) :
    list.insertIdx j new = list.take j ++ new :: list.drop j := by
  induction list generalizing j with
  | nil =>
      obtain rfl : j = 0 := by simpa using place
      rfl
  | cons first rest later =>
      cases j with
      | zero => rfl
      | succ j =>
          rw [List.insertIdx_succ_cons, later (by simpa using place)]
          rfl

/-- The entries before the place found have smaller keys, the others have greater ones. -/
theorem ascends_insert (ascending : Ascends (entries bt))
    (absent : ∀ entry ∈ entries bt, entry.1 ≠ k) (value : Nat) :
    Ascends ((entries bt).take (listFind bt k) ++ (k, value) ::
      (entries bt).drop (listFind bt k)) := by
  obtain ⟨place, below, above⟩ := listFind_spec ascending k
  have before : ∀ entry ∈ (entries bt).take (listFind bt k), entry.1 < k := by
    intro entry member
    obtain ⟨i, inside, rfl⟩ := List.mem_take_iff_getElem.mp member
    rw [entries_getElem]
    exact below i (by omega)
  have behind : ∀ entry ∈ (entries bt).drop (listFind bt k), k < entry.1 := by
    intro entry member
    obtain ⟨i, inside, rfl⟩ := List.mem_drop_iff_getElem.mp member
    have counted : i + listFind bt k < selfSize bt := by simpa using inside
    have least := above (i + listFind bt k) (by omega) counted
    have different := absent _ (List.getElem_mem inside)
    rw [entries_getElem] at different ⊢
    rw [Nat.add_comm] at least different
    exact Nat.lt_of_le_of_ne least (Ne.symm different)
  have split := ascending
  rw [Ascends, ← List.take_append_drop (listFind bt k) (entries bt), List.pairwise_append] at split
  refine List.pairwise_append.mpr ⟨split.1, List.pairwise_cons.mpr ⟨behind, split.2.1⟩, ?_⟩
  intro left low right high
  rcases List.mem_cons.mp high with rfl | later
  · exact before left low
  · exact split.2.2 left low right later

/-- The place behind the entries that are left reads as zero. -/
theorem entry_listRemove_last (small : selfSize bt ≤ 510) (inside : j < selfSize bt) :
    entry (listRemove bt j) (selfSize bt - 1) = (0, 0) := by
  have size : selfSize (setSelfSize (listShiftDown (selfSize bt - 1 - j) j bt)
      (selfSize (listShiftDown (selfSize bt - 1 - j) j bt) - 1)) = selfSize bt - 1 := by
    rw [selfSize_listShiftDown, selfSize_setSelfSize (by omega)]
  rw [listRemove, size, entry_write (by omega) (by decide) (by decide) (by omega), if_pos rfl]

/-- On every node with ascending keys the list operations do what a sorted list does. -/
theorem sortedList (small : selfSize bt ≤ 510)
    (ascending : Ascends (entries bt)) : SortedList bt := by
  have inserted : ∀ k value, selfSize bt < 510 → k < 4294967296 → value < 4294967296 →
      entries (listInsert bt (listFind bt k) k value) =
        (entries bt).insertIdx (listFind bt k) (k, value) :=
    fun k value room keyBounded valueBounded =>
      entries_listInsert room (listFind_spec ascending k).1 keyBounded valueBounded
  have split : ∀ k value, (entries bt).insertIdx (listFind bt k) (k, value) =
      (entries bt).take (listFind bt k) ++ (k, value) :: (entries bt).drop (listFind bt k) :=
    fun k value =>
      insertIdx_eq_split _ (by rw [entries_length]; exact (listFind_spec ascending k).1)
  refine ⟨fun k => ?_, fun k => ?_, ?_, ?_, ?_⟩
  · have lower : (listFindBounds bt k (selfSize bt) 0 (selfSize bt)).1 = listFind bt k :=
      listFindBounds_fst
    have met : _ = (listFindBounds bt k (selfSize bt) 0 (selfSize bt)).2 :=
      listFindBounds_meet (Nat.zero_le _) (Nat.le_refl _)
    exact Prod.ext lower (met.symm.trans lower)
  · obtain ⟨place, below, above⟩ := listFind_spec ascending k
    exact ⟨place, below, fun inside => above _ (Nat.le_refl _) inside⟩
  · intro k value room keyBounded valueBounded absent
    rw [inserted k value room keyBounded valueBounded, split]
    exact ⟨ascends_insert ascending absent value, rfl⟩
  · intro j inside
    rw [entries_listRemove small inside, List.eraseIdx_eq_take_drop_succ]
    exact ⟨rfl, entry_listRemove_last small inside⟩
  · intro k value room keyBounded valueBounded _
    have place := (listFind_spec ascending k).1
    have after := inserted k value room keyBounded valueBounded
    have size : selfSize (listInsert bt (listFind bt k) k value) = selfSize bt + 1 := by
      rw [← entries_length, after,
        List.length_insertIdx_of_le_length (by rw [entries_length]; exact place), entries_length]
    rw [entries_listRemove (by omega) (by omega), after, List.eraseIdx_insertIdx_self]

/-- A leaf with two keys. -/
theorem sortedList_two : SortedList (listInsert (listInsert btreeInitImage 0 5 50) 1 9 90) := by
  have entriesTwo : entries (listInsert (listInsert btreeInitImage 0 5 50) 1 9 90) =
      [(5, 50), (9, 90)] := by
    decide +kernel
  have size : selfSize (listInsert (listInsert btreeInitImage 0 5 50) 1 9 90) = 2 := by
    rw [← entries_length, entriesTwo]
    rfl
  refine sortedList (by omega) ?_
  rw [entriesTwo]
  unfold Ascends
  decide

end EverDb
