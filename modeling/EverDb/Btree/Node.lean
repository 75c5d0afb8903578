import EverDb.Btree.Model

/-!
# Tree nodes as lists of entries

The entries of a node image, and what the list operations of `btree.c` do to
them. Entries beyond `self_size` stay in memory but are not among them.
-/

namespace EverDb

open Foundation Bt

namespace Bt

/-- The key and the data at one place. -/
def entry (bt : Image) (i : Nat) : Nat × Nat := (key bt i, data bt i)

/-- The entries below `self_size`. -/
def entries (bt : Image) : List (Nat × Nat) := (List.range (selfSize bt)).map (entry bt)

variable {bt : Image} {i j value : Nat}

/-- Keys are 32-bit words. -/
theorem key_lt (bt : Image) (i : Nat) : key bt i < 4294967296 := Image.word_lt _ _

/-- Data are 32-bit words. -/
theorem data_lt (bt : Image) (i : Nat) : data bt i < 4294967296 := Image.word_lt _ _

/-- There are `self_size` entries. -/
@[simp] theorem entries_length (bt : Image) : (entries bt).length = selfSize bt := by
  simp [entries]

/-- The entries are listed by their place. -/
@[simp] theorem entries_getElem (bt : Image) (i : Nat) (inside : i < (entries bt).length) :
    (entries bt)[i] = entry bt i := by
  simp [entries]

/-- Two images list the same entries when they agree on the counted ones. -/
theorem entries_eq {list : List (Nat × Nat)} (size : selfSize bt = list.length)
    (agree : ∀ i (inside : i < list.length), entry bt i = list[i]) : entries bt = list := by
  refine List.ext_getElem (by simpa using size) fun i inEntries inList => ?_
  rw [entries_getElem, agree i inList]

section Writes

/-- The magic number that was written is read back. -/
@[simp] theorem magic_setMagic (bounded : value < 4294967296) : magic (setMagic bt value) = value :=
  Image.word_setWord_self bounded

/-- The magic number lies apart from the size. -/
@[simp] theorem magic_setSelfSize : magic (setSelfSize bt value) = magic bt :=
  Image.word_setWord_of_ne (by decide)

/-- The magic number lies apart from the keys. -/
@[simp] theorem magic_setKey : magic (setKey bt i value) = magic bt :=
  Image.word_setWord_of_ne (by omega)

/-- The magic number lies apart from the data. -/
@[simp] theorem magic_setData : magic (setData bt i value) = magic bt :=
  Image.word_setWord_of_ne (by omega)

/-- The size lies apart from the magic number. -/
@[simp] theorem selfSize_setMagic : selfSize (setMagic bt value) = selfSize bt :=
  Image.word_setWord_of_ne (by decide)

/-- A size that fits into a word is read back. -/
theorem selfSize_setSelfSize (bounded : value < 4294967296) :
    selfSize (setSelfSize bt value) = value := Image.word_setWord_self bounded

/-- The size lies apart from the keys. -/
@[simp] theorem selfSize_setKey : selfSize (setKey bt i value) = selfSize bt :=
  Image.word_setWord_of_ne (by omega)

/-- The size lies apart from the data. -/
@[simp] theorem selfSize_setData : selfSize (setData bt i value) = selfSize bt :=
  Image.word_setWord_of_ne (by omega)

/-- The keys lie apart from the magic number. -/
@[simp] theorem key_setMagic : key (setMagic bt value) j = key bt j :=
  Image.word_setWord_of_ne (by omega)

/-- The keys lie apart from the size. -/
@[simp] theorem key_setSelfSize : key (setSelfSize bt value) j = key bt j :=
  Image.word_setWord_of_ne (by omega)

/-- Writing one key leaves the others. -/
theorem key_setKey (bounded : value < 4294967296) :
    key (setKey bt i value) j = if j = i then value else key bt j := by
  rw [key, setKey, Image.word_setWord bounded]
  by_cases same : j = i
  · simp [same]
  · rw [if_neg same, if_neg (by omega), key]

/-- Writing a data word leaves the keys that the array `key` holds. -/
theorem key_setData (inside : j < 510) : key (setData bt i value) j = key bt j :=
  Image.word_setWord_of_ne (by omega)

/-- The data lie apart from the magic number. -/
@[simp] theorem data_setMagic : data (setMagic bt value) j = data bt j :=
  Image.word_setWord_of_ne (by omega)

/-- The data lie apart from the size. -/
@[simp] theorem data_setSelfSize : data (setSelfSize bt value) j = data bt j :=
  Image.word_setWord_of_ne (by omega)

/-- Writing a key within the array leaves the data. -/
theorem data_setKey (inside : i < 510) : data (setKey bt i value) j = data bt j :=
  Image.word_setWord_of_ne (by omega)

/-- Writing one data word leaves the others. -/
theorem data_setData (bounded : value < 4294967296) :
    data (setData bt i value) j = if j = i then value else data bt j := by
  rw [data, setData, Image.word_setWord bounded]
  by_cases same : j = i
  · simp [same]
  · rw [if_neg same, if_neg (by omega), data]

end Writes

/-- The two writes that replace an entry. -/
theorem entry_write {k : Nat} (inside : i < 510) (keyBounded : k < 4294967296)
    (valueBounded : value < 4294967296) (counted : j < 510) :
    entry (setData (setKey bt i k) i value) j = if j = i then (k, value) else entry bt j := by
  rw [entry, key_setData counted, key_setKey keyBounded, data_setData valueBounded,
    data_setKey inside]
  split <;> rfl

/-- Entries stay in memory whatever the size says. -/
theorem entry_setSelfSize : entry (setSelfSize bt value) j = entry bt j := by
  rw [entry, key_setSelfSize, data_setSelfSize, entry]

section Loops

variable {left start : Nat} {source : Image}

/-- The loop of `list_insert` moves entries only. -/
@[simp] theorem magic_listShiftUp : magic (listShiftUp j left bt) = magic bt := by
  induction left generalizing bt with
  | zero => rfl
  | succ left ih => rw [listShiftUp, ih, magic_setData, magic_setKey]

/-- It does not change the size. -/
@[simp] theorem selfSize_listShiftUp : selfSize (listShiftUp j left bt) = selfSize bt := by
  induction left generalizing bt with
  | zero => rfl
  | succ left ih => rw [listShiftUp, ih, selfSize_setData, selfSize_setKey]

/-- Shifting up moves the entries `j .. j + left - 1` by one place. -/
theorem entry_listShiftUp (inside : j + left < 510) (counted : i < 510) :
    entry (listShiftUp j left bt) i =
      if j < i ∧ i ≤ j + left then entry bt (i - 1) else entry bt i := by
  induction left generalizing bt with
  | zero => rw [listShiftUp, if_neg (by omega)]
  | succ left ih =>
      have top : j + left + 1 < 510 := inside
      rw [listShiftUp, ih (by omega), entry_write top (key_lt _ _) (data_lt _ _) (by omega),
        entry_write top (key_lt _ _) (data_lt _ _) counted]
      by_cases last : i = j + left + 1
      · rw [if_neg (by omega), if_pos last, if_pos (by omega), last]
        rfl
      · by_cases moved : j < i ∧ i ≤ j + left
        · rw [if_pos moved, if_neg (by omega), if_pos (by omega)]
        · rw [if_neg moved, if_neg last, if_neg (by omega)]

/-- The loop of the splits moves entries only. -/
@[simp] theorem magic_moveEntries : magic (moveEntries source start left i bt) = magic bt := by
  induction left generalizing bt i with
  | zero => rfl
  | succ left ih => rw [moveEntries, ih, magic_setData, magic_setKey]

/-- The loop of the splits fills places from `i - start` on. -/
theorem entry_moveEntries (above : start ≤ i) (inside : i - start + left ≤ 510)
    (counted : j < 510) :
    entry (moveEntries source start left i bt) j =
      if i - start ≤ j ∧ j < i - start + left then entry source (j + start) else entry bt j := by
  induction left generalizing bt i with
  | zero => rw [moveEntries, if_neg (by omega)]
  | succ left ih =>
      rw [moveEntries, ih (by omega) (by omega),
        entry_write (by omega) (key_lt _ _) (data_lt _ _) counted]
      by_cases first : j = i - start
      · rw [if_neg (by omega), if_pos first, if_pos (by omega)]
        have place : j + start = i := by omega
        rw [place]
        rfl
      · by_cases moved : i - start < j ∧ j < i - start + (left + 1)
        · rw [if_pos (by omega), if_pos (by omega)]
        · rw [if_neg (by omega), if_neg first, if_neg (by omega)]

end Loops

/-- `list_insert` inserts into the list of entries. -/
theorem entries_listInsert {k : Nat} (room : selfSize bt < 510) (place : j ≤ selfSize bt)
    (keyBounded : k < 4294967296) (valueBounded : value < 4294967296) :
    entries (listInsert bt j k value) = (entries bt).insertIdx j (k, value) := by
  have size : selfSize (listInsert bt j k value) = selfSize bt + 1 := by
    simp only [listInsert, selfSize_setData, selfSize_setKey, selfSize_listShiftUp]
    rw [selfSize_setSelfSize (u32_lt _), u32_of_lt (by omega)]
  have length : ((entries bt).insertIdx j (k, value)).length = selfSize bt + 1 := by
    rw [List.length_insertIdx_of_le_length (by simpa using place), entries_length]
  refine entries_eq (by rw [size, length]) fun i inside => ?_
  rw [length] at inside
  rw [listInsert, entry_setSelfSize, entry_write (by omega) keyBounded valueBounded (by omega),
    entry_listShiftUp (by omega) (by omega), List.getElem_insertIdx]
  by_cases here : i = j
  · simp [here]
  · by_cases before : i < j
    · rw [if_neg here, if_neg (by omega), dif_pos before, entries_getElem]
    · rw [if_neg here, if_pos (by omega), dif_neg before, dif_neg here, entries_getElem]

/-- `list_insert` leaves the magic number. -/
@[simp] theorem magic_listInsert {k : Nat} : magic (listInsert bt j k value) = magic bt := by
  simp [listInsert]

/-- Writing the data of an entry. -/
theorem entries_setData (small : selfSize bt ≤ 510) (bounded : value < 4294967296) :
    entries (setData bt j value) = (entries bt).set j (key bt j, value) := by
  refine entries_eq (by simp) fun i counted => ?_
  have within : i < selfSize bt := by simpa using counted
  rw [List.getElem_set, entry, key_setData (by omega), data_setData bounded]
  by_cases same : i = j
  · rw [if_pos same, if_pos same.symm, same]
  · rw [if_neg same, if_neg (Ne.symm same), entries_getElem]
    rfl

/-- Writing the key of an entry. -/
theorem entries_setKey (inside : j < selfSize bt) (small : selfSize bt ≤ 510)
    (bounded : value < 4294967296) :
    entries (setKey bt j value) = (entries bt).set j (value, data bt j) := by
  refine entries_eq (by simp) fun i counted => ?_
  have within : i < selfSize bt := by simpa using counted
  rw [List.getElem_set, entry, key_setKey bounded, data_setKey (by omega)]
  by_cases same : i = j
  · rw [if_pos same, if_pos same.symm, same]
  · rw [if_neg same, if_neg (Ne.symm same), entries_getElem]
    rfl

/-- Cutting a node short. -/
theorem entries_setSelfSize {count : Nat} (fewer : count ≤ selfSize bt)
    (small : selfSize bt ≤ 510) :
    entries (setSelfSize bt count) = (entries bt).take count := by
  have size : selfSize (setSelfSize bt count) = count := selfSize_setSelfSize (by omega)
  refine entries_eq (by rw [size, List.length_take, entries_length]; omega) fun i inside => ?_
  rw [entry_setSelfSize, List.getElem_take, entries_getElem]

section Search

variable {k rounds b e : Nat}

/-- The binary search keeps smaller keys below `b` and the others from `e` on. -/
theorem listFindFrom_spec (ascending : ∀ i j, i < j → j < selfSize bt → key bt i < key bt j)
    (enough : e - b ≤ rounds) (ordered : b ≤ e) (counted : e ≤ selfSize bt)
    (below : ∀ i, i < b → key bt i < k) (above : ∀ i, e ≤ i → i < selfSize bt → k ≤ key bt i) :
    listFindFrom bt k rounds b e ≤ selfSize bt ∧
      (∀ i, i < listFindFrom bt k rounds b e → key bt i < k) ∧
      ∀ i, listFindFrom bt k rounds b e ≤ i → i < selfSize bt → k ≤ key bt i := by
  induction rounds generalizing b e with
  | zero =>
      have met : b = e := by omega
      subst met
      exact ⟨counted, below, above⟩
  | succ rounds ih =>
      rw [listFindFrom]
      by_cases goes : b < e
      · rw [if_pos goes]
        dsimp only
        by_cases right : k > key bt ((b + e) / 2)
        · rw [if_pos right]
          refine ih (by omega) (by omega) counted (fun i less => ?_) above
          rcases Nat.lt_or_eq_of_le (Nat.le_of_lt_succ less) with before | rfl
          · exact Nat.lt_trans (ascending i _ before (by omega)) right
          · exact right
        · rw [if_neg right]
          refine ih (by omega) (by omega) (by omega) below fun i more inside => ?_
          rcases Nat.lt_or_eq_of_le more with after | rfl
          · exact Nat.le_of_lt
              (Nat.lt_of_le_of_lt (Nat.le_of_not_lt right) (ascending _ i after inside))
          · exact Nat.le_of_not_lt right
      · rw [if_neg goes]
        have met : b = e := by omega
        subst met
        exact ⟨counted, below, above⟩

/-- `list_find` finds the first key that is not below `k`. -/
theorem listFind_spec
    (ascending : (entries bt).Pairwise fun left right => left.1 < right.1) (k : Nat) :
    listFind bt k ≤ selfSize bt ∧ (∀ i, i < listFind bt k → key bt i < k) ∧
      ∀ i, listFind bt k ≤ i → i < selfSize bt → k ≤ key bt i := by
  have apart : ∀ i j, i < j → j < selfSize bt → key bt i < key bt j := by
    intro i j less inside
    have ordered := List.pairwise_iff_getElem.mp ascending i j
      (by rw [entries_length]; omega) (by rw [entries_length]; exact inside) less
    simpa [entry] using ordered
  exact listFindFrom_spec apart (Nat.le_refl _) (Nat.zero_le _) (Nat.le_refl _)
    (fun i less => absurd less (Nat.not_lt_zero i)) (fun i more less => absurd less (by omega))

end Search

end Bt

end EverDb
