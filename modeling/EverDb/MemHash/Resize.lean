import EverDb.MemHash.Spec

/-!
# Resizing the hash table

`mem_hash_resize` looks for a listed size that is large enough. Its search is bounded by
the size of the list in bytes, so it leaves the list when no size is. A table whose count
runs ahead of its keys, which keys of zero bring about, is cut down to a smaller size when
it is resized before it is crowded. `MemHash.Loose` is the invariant of tables that saw
keys of zero.
-/

namespace EverDb

open Foundation Foundation.Probing MemHash

/-- The slots in `entries` after `mem_hash_resize`: a new array, unless the table is large
enough. -/
def memHashResizeSlots (t : MemHash) (slots : Nat) : Nat :=
  match hashSizes.find? fun size => size ≥ u32 (t.count * 2 + 1) with
  | none => slots
  | some capacity => if t.capacity ≥ capacity then slots else capacity

/-- A run of `mem_hash_set` calls on a new table, with the number of slots in `entries`. -/
def memHashSetsSlots (sets : List (Nat × Nat)) : Option (MemHash × Nat) :=
  sets.foldlM (fun state set => (memHashSet state.1 set.1 set.2).map fun after =>
    (after, if state.1.crowded then memHashResizeSlots state.1 state.2 else state.2))
    (memHashNew, 0)

/-- What `mem_hash_resize` owes: it finds a size in the list, the new capacity has room, is
no smaller than the old one and is the number of slots, and every pair stays, once. -/
def ResizesSafely (t : MemHash) (slots : Nat) : Prop :=
  ∃ after, memHashResize memHashSet t = some after ∧
    2 * t.count + 1 ≤ after.capacity ∧ 2 * after.count + 1 ≤ after.capacity ∧
    t.capacity ≤ after.capacity ∧
    after.capacity = memHashResizeSlots t slots ∧
    after.items.Perm t.items ∧ (after.items.map Prod.fst).Nodup

/-- The invariant of a table in which a key of zero may have been stored: the count is not
below the number of keys. -/
structure MemHash.Loose (t : MemHash) : Prop where
  placed : Probing.Placed t.slots (path t.capacity) 4294967296
  counted : t.items.length ≤ t.count
  listed : t.capacity = 0 ∨ t.capacity ∈ hashSizes
  spare : 2 * t.count ≤ t.capacity + 1

variable {t after : MemHash} {k v capacity : Nat}

theorem hashSizes_range (listed : capacity ∈ hashSizes) : 3 ≤ capacity ∧ capacity ≤ 6420683 := by
  have all : ∀ size ∈ hashSizes, 3 ≤ size ∧ size ≤ 6420683 := by decide
  exact all capacity listed

/-- The first number in an ascending list that is large enough is the least one. -/
theorem find_least {list : List Nat} (ascending : list.Pairwise (· < ·)) {bound first : Nat}
    (found : list.find? (fun size => size ≥ bound) = some first) {other : Nat}
    (member : other ∈ list) (enough : bound ≤ other) : first ≤ other := by
  induction list with
  | nil => cases member
  | cons head rest later =>
      obtain ⟨above, ordered⟩ := List.pairwise_cons.mp ascending
      by_cases here : head ≥ bound
      · rw [List.find?_cons_of_pos (by simpa using here), Option.some.injEq] at found
        rw [← found]
        rcases List.mem_cons.mp member with rfl | behind
        · exact Nat.le_refl _
        · exact Nat.le_of_lt (above other behind)
      · rw [List.find?_cons_of_neg (by simpa using here)] at found
        rcases List.mem_cons.mp member with rfl | behind
        · exact absurd enough here
        · exact later ordered found behind

/-- The size found has room. -/
theorem hashSize_found (small : 2 * t.count + 1 < 4294967296)
    (found : hashSizes.find? (fun size => size ≥ u32 (t.count * 2 + 1)) = some capacity) :
    capacity ∈ hashSizes ∧ 2 * t.count + 1 ≤ capacity := by
  have enough := List.find?_some found
  simp only [ge_iff_le, decide_eq_true_eq] at enough
  rw [u32_of_lt (by omega)] at enough
  exact ⟨List.mem_of_find?_eq_some found, by omega⟩

namespace MemHash.Loose

theorem capacity_le (loose : t.Loose) : t.capacity ≤ 6420683 := by
  rcases loose.listed with empty | listed
  · omega
  · exact (hashSizes_range listed).2

theorem count_lt (loose : t.Loose) : 2 * t.count + 1 < 4294967296 := by
  have := loose.capacity_le
  have := loose.spare
  omega

theorem of_wf (wf : t.Wf) (listed : t.capacity ∈ hashSizes) : t.Loose :=
  ⟨wf.placed, Nat.le_of_eq wf.counted.symm, .inr listed, wf.spare⟩

theorem fresh : memHashNew.Loose := by
  have wf : memHashNew.Wf := empty_wf 0 (.inl rfl)
  exact ⟨wf.placed, Nat.le_of_eq wf.counted.symm, .inl rfl, wf.spare⟩

/-- Storing where the probe stops; a key of zero changes no binding. -/
theorem put (loose : t.Loose) {count : Nat} (early : count < 4294967296)
    (stop : StopsAt t.slots (path t.capacity k) k count)
    (spare : 2 * t.count + 1 ≤ t.capacity) (v : Nat) :
    (t.put (path t.capacity k count) k v).Loose := by
  have inside := path_lt (show 0 < t.capacity by omega) k count
  have size := loose.capacity_le
  have counted := loose.counted
  by_cases zero : k = 0
  · subst zero
    have unused : t.slots (path t.capacity 0 count) = none := by
      cases held : t.slots (path t.capacity 0 count) with
      | none => rfl
      | some binding =>
          obtain ⟨_, nonzero, _⟩ := slots_eq_some.mp held
          exact absurd (stop.stops _ _ held) nonzero
    have free : (t.entries (path t.capacity 0 count)).k = 0 := by
      by_contra used
      rw [slots_eq_some.mpr ⟨inside, used, rfl⟩] at unused
      cases unused
    have same : (t.put (path t.capacity 0 count) 0 v).slots = t.slots := by
      funext slot
      by_cases here : slot = path t.capacity 0 count
      · subst here
        rw [unused]
        simp [MemHash.slots, MemHash.put]
      · simp [MemHash.slots, MemHash.put, here]
    have grown : (t.put (path t.capacity 0 count) 0 v).count = t.count + 1 := by
      simp only [MemHash.put, free, if_true]
      exact u32_of_lt (by omega)
    refine ⟨?_, ?_, loose.listed, ?_⟩
    · rw [same]
      exact loose.placed
    · rw [grown]
      unfold MemHash.items at counted ⊢
      rw [same]
      exact Nat.le_succ_of_le counted
    · rw [grown]
      change 2 * (t.count + 1) ≤ t.capacity + 1
      omega
  · have changed := put_slots (t := t) (v := v) inside zero
    have whole :=
      (bindings_update_perm t.slots inside (t.slots (path t.capacity k count))).length_eq
    rw [Function.update_eq_self] at whole
    have stored := (bindings_update_perm t.slots inside (some (k, v))).length_eq
    rw [List.length_append] at whole stored
    simp only [Option.toList_some, List.length_singleton] at stored
    have items : (t.put (path t.capacity k count) k v).items.length =
        (bindings (Function.update t.slots (path t.capacity k count) (some (k, v)))
          t.capacity).length := by
      unfold MemHash.items
      rw [changed]
      rfl
    have before : t.items.length = (bindings t.slots t.capacity).length := rfl
    refine ⟨?_, ?_, loose.listed, ?_⟩
    · rw [changed]
      exact loose.placed.put early stop v
    · rw [items, stored]
      by_cases free : (t.entries (path t.capacity k count)).k = 0
      · simp only [MemHash.put, free, if_true]
        rw [u32_of_lt (by omega)]
        omega
      · have used : t.slots (path t.capacity k count) =
            some ((t.entries (path t.capacity k count)).k,
              (t.entries (path t.capacity k count)).v) :=
          slots_eq_some.mpr ⟨inside, free, rfl⟩
        rw [used] at whole
        simp only [Option.toList_some, List.length_singleton] at whole
        simp only [MemHash.put, free, if_false]
        omega
    · change 2 * (t.put (path t.capacity k count) k v).count ≤ t.capacity + 1
      simp only [MemHash.put]
      split
      · rw [u32_of_lt (by omega)]
        omega
      · omega

/-- A set after which no resize is due. -/
theorem store (loose : t.Loose) (spare : 2 * t.count + 1 ≤ t.capacity) {slot : Nat}
    (found : memHashFind t k (memHashHash k) 4294967296 0 = some slot) (v : Nat) :
    (t.put slot k v).Loose := by
  have size := loose.capacity_le
  have counted := loose.counted
  obtain ⟨count, early, stop⟩ := exists_stop (t := t) (by omega) (by omega) k
  rw [memHashFind_of_stopsAt (by omega) stop 4294967296 0 (by omega) (by omega),
    Option.some.injEq] at found
  rw [← found]
  exact loose.put early stop spare v

/-- A crowded table is resized to a larger one. -/
theorem resize (loose : t.Loose) (crowded : t.crowded = true) (depth : Nat)
    (ran : memHashResize (memHashSetWithin (depth + 1)) t = some after) :
    after.Loose ∧ 2 * after.count + 1 ≤ after.capacity ∧
    after.capacity = memHashResizeSlots t t.capacity ∧
      after.items.Perm t.items := by
  have small := loose.count_lt
  have counted := loose.counted
  simp only [MemHash.crowded, decide_eq_true_eq] at crowded
  rw [u32_of_lt (by omega)] at crowded
  cases found : hashSizes.find? fun size => size ≥ u32 (t.count * 2 + 1) with
  | none =>
      unfold memHashResize at ran
      rw [found] at ran
      cases ran
  | some capacity =>
      obtain ⟨listed, roomy⟩ := hashSize_found small found
      obtain ⟨moved, resized, wf, sized, perm⟩ :=
        memHashResize_moves loose.placed counted found roomy
        (hashSizes_range listed) (by omega) depth
      rw [resized, Option.some.injEq] at ran
      rw [← ran]
      refine ⟨.of_wf wf (by rw [sized]; exact listed), ?_, ?_, perm⟩
      · rw [sized, wf.counted, perm.length_eq]
        omega
      · unfold memHashResizeSlots
        rw [found, sized]
        exact (if_neg (by omega)).symm

/-- `mem_hash_set` stores into the table or into a larger one with the same bindings. -/
theorem set_stores (loose : t.Loose) (ran : memHashSet t k v = some after) :
    ∃ larger slot, larger.Loose ∧ 2 * larger.count + 1 ≤ larger.capacity ∧
    larger.items.Perm t.items ∧
      larger.capacity = (if t.crowded then memHashResizeSlots t t.capacity else t.capacity) ∧
      memHashFind larger k (memHashHash k) 4294967296 0 = some slot ∧
      after = larger.put slot k v := by
  change memHashSetWithin (4294967295 + 1) t k v = some after at ran
  unfold memHashSetWithin at ran
  by_cases crowded : t.crowded = true
  · rw [if_pos crowded] at ran ⊢
    cases resized : memHashResize (memHashSetWithin 4294967295) t with
    | none =>
        rw [resized] at ran
        cases ran
    | some larger =>
        obtain ⟨kept, spare, sized, perm⟩ := loose.resize crowded 4294967294 resized
        rw [resized] at ran
        cases found : memHashFind larger k (memHashHash k) 4294967296 0 with
        | none => simp [found] at ran
        | some slot =>
            simp only [Option.bind_eq_bind, Option.bind_some, found, Option.some.injEq] at ran
            exact ⟨larger, slot, kept, spare, perm, sized, found, ran.symm⟩
  · rw [if_neg crowded] at ran ⊢
    have spare : 2 * t.count + 1 ≤ t.capacity := by
      have small := loose.count_lt
      simp only [MemHash.crowded, decide_eq_true_eq, Nat.not_lt] at crowded
      rw [u32_of_lt (by omega)] at crowded
      omega
    cases found : memHashFind t k (memHashHash k) 4294967296 0 with
    | none => simp [found] at ran
    | some slot =>
        simp only [Option.bind_eq_bind, Option.bind_some, found, Option.some.injEq] at ran
        exact ⟨t, slot, loose, spare, .refl _, rfl, found, ran.symm⟩

/-- One `mem_hash_set`. -/
theorem set (loose : t.Loose) (ran : memHashSet t k v = some after) :
    after.Loose ∧ after.capacity = if t.crowded then memHashResizeSlots t t.capacity
      else t.capacity := by
  obtain ⟨larger, slot, kept, spare, _, sized, found, rfl⟩ := loose.set_stores ran
  exact ⟨kept.store spare found v, sized⟩

end MemHash.Loose

/-- A run of sets keeps the invariant, and `entries` has as many slots as the capacity
says. -/
theorem memHashSetsSlots_loose {sets : List (Nat × Nat)} {slots : Nat}
    (ran : memHashSetsSlots sets = some (t, slots)) : t.Loose ∧ slots = t.capacity := by
  induction sets using List.reverseRecOn generalizing t slots with
  | nil =>
      cases ran
      exact ⟨.fresh, rfl⟩
  | append_singleton sets last before =>
      unfold memHashSetsSlots at ran before
      rw [List.foldlM_append] at ran
      obtain ⟨⟨middle, held⟩, reached, stepped⟩ := Option.bind_eq_some_iff.mp ran
      obtain ⟨loose, same⟩ := before reached
      simp only [List.foldlM_cons, List.foldlM_nil, Option.bind_eq_bind] at stepped
      cases stored : memHashSet middle last.1 last.2 with
      | none => simp [stored] at stepped
      | some after =>
          simp only [stored, Option.map_some, Option.bind_some, Option.pure_def, Option.some.injEq,
            Prod.mk.injEq] at stepped
          obtain ⟨rfl, rfl⟩ := stepped
          obtain ⟨kept, sized⟩ := loose.set stored
          rw [same]
          exact ⟨kept, sized.symm⟩

/-- The table of a run, without its slots. -/
theorem memHashSetsSlots_fst (sets : List (Nat × Nat)) :
    (memHashSetsSlots sets).map Prod.fst = memHashSets sets := by
  induction sets using List.reverseRecOn with
  | nil => rfl
  | append_singleton sets last before =>
      unfold memHashSetsSlots memHashSets at before ⊢
      rw [List.foldlM_append, List.foldlM_append, ← before]
      cases sets.foldlM (fun state set => (memHashSet state.1 set.1 set.2).map fun after =>
          (after, if state.1.crowded then memHashResizeSlots state.1 state.2 else state.2))
          (memHashNew, 0) with
      | none => rfl
      | some state => cases stored : memHashSet state.1 last.1 last.2 <;> simp [stored]

/-- A table that a run of sets leaves is resized safely exactly when a listed size has
room for twice its count, and none smaller than its capacity has. -/
theorem memHashResize_safe_iff {sets : List (Nat × Nat)} {slots : Nat}
    (ran : memHashSetsSlots sets = some (t, slots)) :
    ResizesSafely t slots ↔
      2 * t.count + 1 ≤ 6420683 ∧ ∀ size ∈ hashSizes, 2 * t.count + 1 ≤ size →
      t.capacity ≤ size := by
  obtain ⟨loose, same⟩ := memHashSetsSlots_loose ran
  have small := loose.count_lt
  have ascending : hashSizes.Pairwise (· < ·) := by decide
  have keys : (t.items.map Prod.fst).Nodup := loose.placed.keys_nodup t.capacity
  subst same
  constructor
  · rintro ⟨after, resized, room, _, kept, slotted, _⟩
    cases found : hashSizes.find? fun size => size ≥ u32 (t.count * 2 + 1) with
    | none =>
        unfold memHashResize at resized
        rw [found] at resized
        cases resized
    | some capacity =>
        obtain ⟨listed, roomy⟩ := hashSize_found small found
        have top := (hashSizes_range listed).2
        refine ⟨by omega, fun size member enough => ?_⟩
        have least : capacity ≤ size :=
          find_least ascending found member (by rw [u32_of_lt (by omega)]; omega)
        unfold memHashResizeSlots at slotted
        rw [found] at slotted
        simp only at slotted
        by_cases enoughSlots : t.capacity ≥ capacity
        · unfold memHashResize at resized
          rw [found] at resized
          simp only [Option.bind_eq_bind, Option.bind_some, if_pos enoughSlots,
            Option.some.injEq] at resized
          have shrunk : after.capacity = capacity := by rw [← resized]
          omega
        · omega
  · rintro ⟨enough, fits⟩
    obtain ⟨capacity, found, roomy, sized⟩ :=
      exists_hashSize (show t.count ≤ maxKeys by simp only [maxKeys]; omega)
    have listed := (hashSize_found small found).1
    have atMost := fits capacity listed roomy
    rcases Nat.lt_or_eq_of_le atMost with larger | equal
    · obtain ⟨after, moved, wf, sizedAfter, perm⟩ :=
        memHashResize_moves loose.placed loose.counted found roomy sized larger 4294967295
      have counted := loose.counted
      have slotted : memHashResizeSlots t t.capacity = capacity := by
        unfold memHashResizeSlots
        rw [found]
        exact if_neg (by omega)
      refine ⟨after, moved, by omega, ?_, by omega, by omega, perm, wf.keys_nodup⟩
      rw [wf.counted, perm.length_eq, sizedAfter]
      omega
    · have large : t.capacity ≥ capacity := by omega
      have resized : memHashResize memHashSet t = some t := by
        unfold memHashResize
        rw [found]
        simp only [Option.bind_eq_bind, Option.bind_some]
        rw [if_pos large, ← equal]
      have slotted : memHashResizeSlots t t.capacity = t.capacity := by
        unfold memHashResizeSlots
        rw [found]
        exact if_pos large
      exact ⟨t, resized, by omega, by omega, Nat.le_refl _, slotted.symm, List.Perm.refl _, keys⟩

/-- A crowded table of four keys is rebuilt. -/
theorem memHashResize_safe_four :
    ∃ t slots, memHashSetsSlots [(5, 1), (6, 2), (7, 3), (8, 4)] = some (t, slots) ∧
    t.crowded = true ∧ t.capacity = 7 ∧ ResizesSafely t slots := by
  have ran : (memHashSetsSlots [(5, 1), (6, 2), (7, 3), (8, 4)]).isSome = true := by decide +kernel
  obtain ⟨⟨t, slots⟩, reached⟩ := Option.isSome_iff_exists.mp ran
  have counts : (memHashSetsSlots [(5, 1), (6, 2), (7, 3), (8, 4)]).map
      (fun state => (state.1.count, state.1.capacity)) = some (4, 7) := by
    decide +kernel
  rw [reached, Option.map_some, Option.some.injEq, Prod.mk.injEq] at counts
  obtain ⟨count, capacity⟩ : t.count = 4 ∧ t.capacity = 7 := counts
  refine ⟨t, slots, reached, ?_, capacity,
    (memHashResize_safe_iff reached).mpr ⟨by omega, fun size _ enough => by omega⟩⟩
  simp only [MemHash.crowded, count, capacity]
  decide

/-- With 3210342 keys a table of the largest size is crowded, and no size has room. -/
theorem memHashResize_leaves_list : ∃ t slots,
    memHashSetsSlots ((List.range 3210342).map fun i => (i + 1, 1)) = some (t, slots) ∧
    t.crowded = true ∧
    ¬ResizesSafely t slots := by
  let sets := (List.range maxKeys).map fun i => (i + 1, 1)
  have keys : sets.map Prod.fst = (List.range maxKeys).map (· + 1) := by
    rw [List.map_map]
    rfl
  have distinct : (sets.map Prod.fst).Nodup := by
    rw [keys]
    exact List.nodup_range.map fun left right same => by simpa using same
  have card : (sets.map Prod.fst).toFinset.card = maxKeys := by
    rw [List.toFinset_card_of_nodup distinct, keys, List.length_map, List.length_range]
  obtain ⟨t, ran, wf, stored, _⟩ := memHashSets_spec sets
    (by
      intro set member
      obtain ⟨i, _, rfl⟩ := List.mem_map.mp member
      exact Nat.succ_ne_zero i)
    (Nat.le_of_eq card)
  have count : t.count = maxKeys := by
    rw [wf.counted, ← card, ← stored, List.toFinset_card_of_nodup wf.keys_nodup, List.length_map]
  have fresh : ∀ binding ∈ t.items, binding.1 ≠ 3210342 := by
    intro binding member same
    have inSets : binding.1 ∈ (sets.map Prod.fst).toFinset := by
      rw [← stored]
      exact List.mem_toFinset.mpr (List.mem_map_of_mem member)
    rw [List.mem_toFinset, keys] at inSets
    obtain ⟨i, inside, here⟩ := List.mem_map.mp inSets
    have below := List.mem_range.mp inside
    simp only [maxKeys] at below
    omega
  -- the capacity is the last listed size
  have slotted : ∀ sets t, memHashSets sets = some t →
      ∃ slots, memHashSetsSlots sets = some (t, slots) := by
    intro sets t ran
    rw [← memHashSetsSlots_fst] at ran
    obtain ⟨⟨table, slots⟩, reached, rfl⟩ := Option.map_eq_some_iff.mp ran
    exact ⟨slots, reached⟩
  obtain ⟨slots, reached⟩ := slotted sets t ran
  obtain ⟨loose, _⟩ := memHashSetsSlots_loose reached
  have spare := loose.spare
  have last : t.capacity = 6420683 := by
    have top : ∀ size ∈ hashSizes, 6420681 ≤ size → size = 6420683 := by decide
    simp only [maxKeys] at count
    rcases loose.listed with empty | listed
    · omega
    · exact top t.capacity listed (by omega)
  obtain ⟨after, ranAfter, wfAfter, sizedAfter, perm⟩ :=
    wf.set_without_resize (show 3210342 ≠ 0 by decide)
      (by simp only [maxKeys] at count; omega) 4294967295 1
  have ranAll : memHashSets (sets ++ [(3210342, 1)]) = some after := by
    unfold memHashSets at ran ⊢
    rw [List.foldlM_append, ran]
    have ranSet : memHashSet t 3210342 1 = some after := ranAfter
    simp [ranSet]
  have countAfter : after.count = 3210342 := by
    rw [wfAfter.counted, perm.length_eq, Assoc.bind, Assoc.without_of_absent fresh,
      List.length_cons, ← wf.counted, count]
  have all : (List.range 3210342).map (fun i => (i + 1, 1)) = sets ++ [(3210342, 1)] := by
    rw [show (3210342 : Nat) = maxKeys + 1 from rfl, List.range_succ, List.map_append]
    rfl
  obtain ⟨slotsAfter, reachedAfter⟩ := slotted _ after ranAll
  refine ⟨after, slotsAfter, by rw [all]; exact reachedAfter, ?_, ?_⟩
  · simp only [MemHash.crowded, decide_eq_true_eq, countAfter, sizedAfter, last]
    decide
  · rw [memHashResize_safe_iff reachedAfter, countAfter]
    omega

end EverDb
