import EverDb.Btree.Pop
import EverDb.Btree.Set

/-!
# Removing and joining entries

What `list_remove` and the joining loop of `btree_pop` do to the entries of a node.
-/

namespace EverDb

open Foundation

namespace Bt

variable {bt source : Image} {i j left : Nat}

/-- The loop of `list_remove` leaves the magic number. -/
@[simp] theorem magic_listShiftDown : magic (listShiftDown left j bt) = magic bt := by
  induction left generalizing bt j with
  | zero => rfl
  | succ left ih => rw [listShiftDown, ih, magic_setData, magic_setKey]

/-- The loop of `list_remove` leaves the size. -/
@[simp] theorem selfSize_listShiftDown : selfSize (listShiftDown left j bt) = selfSize bt := by
  induction left generalizing bt j with
  | zero => rfl
  | succ left ih => rw [listShiftDown, ih, selfSize_setData, selfSize_setKey]

/-- Shifting down moves the entries `j + 1 .. j + left` by one place. -/
theorem entry_listShiftDown (inside : j + left < 510) (counted : i < 510) :
    entry (listShiftDown left j bt) i =
      if j ≤ i ∧ i < j + left then entry bt (i + 1) else entry bt i := by
  induction left generalizing bt j with
  | zero => rw [listShiftDown, if_neg (by omega)]
  | succ left ih =>
      have first : j < 510 := by omega
      rw [listShiftDown, ih (by omega)]
      by_cases moved : j + 1 ≤ i ∧ i < j + 1 + left
      · rw [if_pos moved, if_pos (by omega),
          entry_write first (key_lt _ _) (data_lt _ _) (by omega), if_neg (by omega)]
      · rw [if_neg moved, entry_write first (key_lt _ _) (data_lt _ _) counted]
        by_cases here : i = j
        · rw [if_pos here, if_pos (by omega), here]
          rfl
        · rw [if_neg here, if_neg (by omega)]

/-- `list_remove` leaves the magic number. -/
@[simp] theorem magic_listRemove : magic (listRemove bt j) = magic bt := by
  simp [listRemove]

/-- `list_remove` makes the node one smaller. -/
theorem selfSize_listRemove : selfSize (listRemove bt j) = selfSize bt - 1 := by
  have small : selfSize bt < 4294967296 := Image.word_lt _ _
  rw [listRemove, selfSize_setData, selfSize_setKey, selfSize_setSelfSize]
  · rw [selfSize_listShiftDown]
  · rw [selfSize_listShiftDown]
    omega

/-- From the last entry on, `list_remove` moves nothing. -/
theorem listRemove_behind (behind : selfSize bt ≤ i + 1) (other : selfSize bt ≤ j + 1) :
    listRemove bt i = listRemove bt j := by
  rw [listRemove, listRemove, show selfSize bt - 1 - i = 0 by omega,
    show selfSize bt - 1 - j = 0 by omega]
  rfl

/-- `list_remove` erases an entry. -/
theorem entries_listRemove (small : selfSize bt ≤ 510) (inside : j < selfSize bt) :
    entries (listRemove bt j) = (entries bt).eraseIdx j := by
  have length : ((entries bt).eraseIdx j).length = selfSize bt - 1 := by
    rw [List.length_eraseIdx_of_lt (by simpa using inside), entries_length]
  refine entries_eq (by rw [selfSize_listRemove, length]) fun i counted => ?_
  rw [length] at counted
  have bounded : selfSize bt - 1 < 4294967296 := by omega
  have size : selfSize (setSelfSize (listShiftDown (selfSize bt - 1 - j) j bt)
      (selfSize (listShiftDown (selfSize bt - 1 - j) j bt) - 1)) = selfSize bt - 1 := by
    rw [selfSize_listShiftDown, selfSize_setSelfSize bounded]
  have zero : 0 < 4294967296 := by decide
  rw [listRemove, size, entry_write (by omega) zero zero (by omega), if_neg (by omega),
    entry_setSelfSize, entry_listShiftDown (by omega) (by omega), List.getElem_eraseIdx]
  by_cases before : i < j
  · rw [if_neg (by omega), dif_pos before, entries_getElem]
  · rw [if_pos (by omega), dif_neg before, entries_getElem]

/-- The loop that joins two nodes leaves the magic number. -/
@[simp] theorem magic_joinEntries : magic (joinEntries source left i bt) = magic bt := by
  induction left generalizing bt i with
  | zero => rfl
  | succ left ih => rw [joinEntries, ih, magic_setData, magic_setKey]

/-- The loop that joins two nodes leaves the size to be written behind it. -/
@[simp] theorem selfSize_joinEntries : selfSize (joinEntries source left i bt) = selfSize bt := by
  induction left generalizing bt i with
  | zero => rfl
  | succ left ih => rw [joinEntries, ih, selfSize_setData, selfSize_setKey]

/-- The joining loop fills places behind the entries. -/
theorem entry_joinEntries (inside : selfSize bt + i + left ≤ 510) (counted : j < 510) :
    entry (joinEntries source left i bt) j =
      if selfSize bt + i ≤ j ∧ j < selfSize bt + i + left then entry source (j - selfSize bt)
      else entry bt j := by
  induction left generalizing bt i with
  | zero => rw [joinEntries, if_neg (by omega)]
  | succ left ih =>
      have size : selfSize (setData (setKey bt (selfSize bt + i) (key source i)) (selfSize bt + i)
          (data source i)) = selfSize bt := by simp
      rw [joinEntries, ih (by rw [size]; omega), size,
        entry_write (by omega) (key_lt _ _) (data_lt _ _) counted]
      by_cases first : j = selfSize bt + i
      · rw [if_neg (by omega), if_pos first, if_pos (by omega), first, Nat.add_sub_cancel_left]
        rfl
      · by_cases moved : selfSize bt + (i + 1) ≤ j ∧ j < selfSize bt + (i + 1) + left
        · rw [if_pos moved, if_pos (by omega)]
        · rw [if_neg moved, if_neg first, if_neg (by omega)]

end Bt

variable {bt : Image} {h : Nat} {front back row other : List (Nat × Nat)} {middle : Nat × Nat}

/-- Remove an entry. -/
theorem NodeAt.listRemove (nodeAt : NodeAt bt h (front ++ middle :: back))
    (small : (front ++ middle :: back).length ≤ 510) :
    NodeAt (EverDb.listRemove bt front.length) h (front ++ back) := by
  have size := nodeAt.selfSize
  refine ⟨by rw [Bt.magic_listRemove, nodeAt.magic], ?_⟩
  rw [Bt.entries_listRemove (by rw [size]; exact small) (by rw [size]; simp), nodeAt.entries,
    List.eraseIdx_append_of_length_le (Nat.le_refl _), Nat.sub_self]
  rfl

/-- Join two nodes. -/
theorem NodeAt.join {source : Image} {height : Nat} (nodeAt : NodeAt bt h row)
    (sourceAt : NodeAt source height other) (small : row.length + other.length ≤ 510) :
    NodeAt (Bt.setSelfSize (joinEntries source (Bt.selfSize source) 0 bt)
      (Bt.selfSize bt + Bt.selfSize source)) h (row ++ other) := by
  have size := nodeAt.selfSize
  have sourceSize := sourceAt.selfSize
  refine ⟨by rw [Bt.magic_setSelfSize, Bt.magic_joinEntries, nodeAt.magic],
    Bt.entries_eq ?_ fun i inside => ?_⟩
  · rw [Bt.selfSize_setSelfSize (by omega), size, sourceSize, List.length_append]
  · rw [List.length_append] at inside
    rw [Bt.entry_setSelfSize, Bt.entry_joinEntries (by omega) (by omega), Nat.add_zero,
      size, sourceSize]
    by_cases before : i < row.length
    · rw [if_neg (by omega), List.getElem_append_left before,
        ← Bt.entries_getElem bt i (by rw [Bt.entries_length, size]; exact before)]
      simp [nodeAt.entries]
    · have place : i - row.length < other.length := by omega
      rw [if_pos (by omega), List.getElem_append_right (by omega),
        ← Bt.entries_getElem source (i - row.length)
          (by rw [Bt.entries_length, sourceSize]; exact place)]
      simp [sourceAt.entries]

end EverDb
