import EverDb.Foundation.Assoc
import EverDb.Foundation.Probing
import EverDb.Foundation.Triangular
import EverDb.MemHash.Model
import Mathlib.Data.Finset.Card

/-!
# The hash table is a finite map

`MemHash.Wf` is the table's invariant: well placed along the probe paths, counted
exactly and at most half full up to rounding. Under it `memHashSet` replaces one
binding and `memHashGet` reads one, across every resize; the triangular distances
reach every slot, so an absent key's probe ends too.
-/

namespace EverDb

open Foundation Foundation.Probing

/-- The number of keys up to which a listed size is found for every resize. -/
abbrev maxKeys : Nat := 3210341

namespace MemHash

/-- The slots a probe for `k` visits, round by round. -/
def path (capacity k round : Nat) : Nat := memHashProbe (memHashHash k) round % capacity

/-- The table as a partial map from slots to bindings. -/
def slots (t : MemHash) : Slots Nat Nat := fun slot =>
  if slot < t.capacity ∧ (t.entries slot).k ≠ 0 then
    some ((t.entries slot).k, (t.entries slot).v)
  else none

/-- The bindings in slot order. -/
def items (t : MemHash) : List (Nat × Nat) := bindings t.slots t.capacity

/-- The value bound to a key, zero when there is none. -/
def get (t : MemHash) (k : Nat) : Nat := (t.items.lookup k).getD 0

/-- The invariant of every table the program builds. -/
structure Wf (t : MemHash) : Prop where
  placed : Probing.Placed t.slots (path t.capacity) 4294967296
  counted : t.count = t.items.length
  sized : t.capacity = 0 ∨ 3 ≤ t.capacity ∧ t.capacity ≤ 6420683
  spare : 2 * t.count ≤ t.capacity + 1
  /-- An unused slot reads as the value zero. -/
  cleared : ∀ slot, (t.entries slot).k = 0 → (t.entries slot).v = 0

end MemHash

open MemHash

variable {t : MemHash} {k v : Nat}

/-- A hash has 32 bits. -/
theorem memHashHash_lt (k : Nat) : memHashHash k < 4294967296 := by
  have bounded : ∀ x, u32 x < 4294967296 := fun x => Nat.mod_lt _ (by decide)
  unfold memHashHash
  apply Nat.xor_lt_two_pow (n := 32)
  · exact lt_of_le_of_lt (Nat.shiftRight_le _ _) (bounded _)
  · exact bounded _

/-- The probe's distance is the wrapped triangular number. -/
theorem memHashProbe_eq (h i : Nat) : memHashProbe h i = u32 (h + Triangular.wrapped 31 i) := rfl

/-- Probing reaches every slot: the wrapped triangular numbers take every value
below `2 ^ 31`, and any window of `capacity` of them covers all remainders. -/
theorem probe_reaches {capacity h slot : Nat} (small : capacity ≤ 1073741824)
    (start : h < 4294967296)
    (inside : slot < capacity) : ∃ i, i < 4294967296 ∧ memHashProbe h i % capacity = slot := by
  -- a distance whose sum with `h`, reduced to 32 bits, leaves remainder `slot`
  have distance : ∃ d, d < 2147483648 ∧ u32 (h + d) % capacity = slot := by
    by_cases wraps : h + capacity ≤ 4294967296
    · have bound : h % capacity < capacity := Nat.mod_lt _ (by omega)
      have split := Nat.div_add_mod h capacity
      by_cases ahead : h % capacity ≤ slot
      · refine ⟨slot - h % capacity, by omega, ?_⟩
        have sum : h + (slot - h % capacity) = slot + capacity * (h / capacity) := by omega
        rw [u32_of_lt (by omega), sum, Nat.add_mul_mod_self_left, Nat.mod_eq_of_lt inside]
      · refine ⟨slot + capacity - h % capacity, by omega, ?_⟩
        have sum : h + (slot + capacity - h % capacity) =
            slot + capacity * (h / capacity + 1) := by
          rw [Nat.mul_add, Nat.mul_one]
          omega
        rw [u32_of_lt (by omega), sum, Nat.add_mul_mod_self_left, Nat.mod_eq_of_lt inside]
    · -- the window wraps: go past the end of the 32-bit range first
      refine ⟨4294967296 - h + slot, by omega, ?_⟩
      have sum : h + (4294967296 - h + slot) = slot + 4294967296 := by omega
      have reduced : u32 (slot + 4294967296) = slot := by unfold u32; omega
      rw [sum, reduced, Nat.mod_eq_of_lt inside]
  obtain ⟨d, bounded, reached⟩ := distance
  obtain ⟨i, early, same⟩ := Triangular.wrapped_surjective (show d < 2 ^ 31 from bounded)
  refine ⟨i, lt_trans early (by decide), ?_⟩
  rw [memHashProbe_eq, same, reached]

section Slots

/-- A slot that is in use. -/
theorem slots_eq_some {slot other value : Nat} :
    t.slots slot = some (other, value) ↔
      slot < t.capacity ∧ other ≠ 0 ∧ t.entries slot = ⟨other, value⟩ := by
  unfold MemHash.slots
  by_cases used : slot < t.capacity ∧ (t.entries slot).k ≠ 0
  · rw [if_pos used, Option.some.injEq, Prod.mk.injEq]
    constructor
    · rintro ⟨rfl, rfl⟩; exact ⟨used.1, used.2, rfl⟩
    · rintro ⟨_, _, same⟩; simp [same]
  · rw [if_neg used]
    constructor
    · intro absurdity; cases absurdity
    · rintro ⟨inside, nonzero, same⟩
      exact absurd ⟨inside, by simp [same, nonzero]⟩ used

/-- A probe stays within the table. -/
theorem path_lt (positive : 0 < t.capacity) (k round : Nat) :
    path t.capacity k round < t.capacity := Nat.mod_lt _ positive

/-- The shared probe loop finds the slot where the probe stops. -/
theorem memHashFind_of_stopsAt (positive : 0 < t.capacity) {count : Nat}
    (stop : StopsAt t.slots (path t.capacity k) k count) :
    ∀ rounds i, i ≤ count → count < i + rounds →
      memHashFind t k (memHashHash k) rounds i = some (path t.capacity k count) := by
  intro rounds
  induction rounds with
  | zero => intro i before after; omega
  | succ rounds ih =>
      intro i before after
      have inside := path_lt positive k i
      by_cases here : i = count
      · subst here
        have found : ¬((t.entries (path t.capacity k i)).k ≠ 0 ∧
            (t.entries (path t.capacity k i)).k ≠ k) := by
          rintro ⟨used, different⟩
          exact different (stop.stops _ _ (slots_eq_some.mpr ⟨inside, used, rfl⟩))
        change (if (t.entries (path t.capacity k i)).k ≠ 0 ∧
          (t.entries (path t.capacity k i)).k ≠ k then _ else some (path t.capacity k i)) = _
        rw [if_neg found]
      · obtain ⟨other, value, held, different⟩ := stop.passes i (by omega)
        obtain ⟨_, nonzero, entry⟩ := slots_eq_some.mp held
        have passed : (t.entries (path t.capacity k i)).k ≠ 0 ∧
            (t.entries (path t.capacity k i)).k ≠ k := by
          rw [entry]; exact ⟨nonzero, different⟩
        change (if (t.entries (path t.capacity k i)).k ≠ 0 ∧
          (t.entries (path t.capacity k i)).k ≠ k then
            memHashFind t k (memHashHash k) rounds (i + 1) else _) = _
        rw [if_pos passed]
        exact ih (i + 1) (by omega) (by omega)

/-- A slot is unused when fewer than `capacity` bindings are stored. -/
theorem exists_unused_slot (fewer : t.items.length < t.capacity) :
    ∃ slot, slot < t.capacity ∧ t.slots slot = none := by
  by_contra none
  have used : ∀ slot ∈ List.range t.capacity, (t.slots slot).isSome := by
    intro slot member
    rw [Option.isSome_iff_ne_none]
    exact fun free => none ⟨slot, List.mem_range.mp member, free⟩
  have full : t.items.length = t.capacity := by
    have whole : t.items.length = _ := List.length_filterMap_eq_countP
    rw [List.countP_eq_length.mpr used, List.length_range] at whole
    exact whole
  omega

/-- Every probe in a table with an unused slot ends. -/
theorem exists_stop (bounded : t.capacity ≤ 1073741824)
    (fewer : t.items.length < t.capacity) (k : Nat) :
    ∃ count, count < 4294967296 ∧ StopsAt t.slots (path t.capacity k) k count := by
  obtain ⟨slot, inside, free⟩ := exists_unused_slot fewer
  obtain ⟨round, early, reached⟩ := probe_reaches bounded (memHashHash_lt k) inside
  exact exists_stopsAt ⟨round, early, by rw [path, reached]; exact free⟩ k

/-- In a table that is not full every probe stops. -/
theorem MemHash.Wf.exists_stop (wf : t.Wf) (fewer : t.items.length < t.capacity) (k : Nat) :
    ∃ count, count < 4294967296 ∧ StopsAt t.slots (path t.capacity k) k count :=
  EverDb.exists_stop (by rcases wf.sized with h | ⟨_, h⟩ <;> omega) fewer k

end Slots

section Put

/-- `MemHash.put` is the update of one slot. -/
theorem put_slots {slot : Nat} (inside : slot < t.capacity) (nonzero : k ≠ 0) :
    (t.put slot k v).slots = Function.update t.slots slot (some (k, v)) := by
  funext other
  by_cases here : other = slot
  · subst here; simp [MemHash.slots, MemHash.put, inside, nonzero]
  · simp [MemHash.slots, MemHash.put, here]

/-- Storing where the probe stops keeps the invariant and replaces the binding. -/
theorem MemHash.Wf.put_spec (wf : t.Wf) (nonzero : k ≠ 0) {count : Nat} (early : count < 4294967296)
    (stop : StopsAt t.slots (path t.capacity k) k count) (spare : 2 * t.count + 1 ≤ t.capacity) :
    (t.put (path t.capacity k count) k v).Wf ∧
      (t.put (path t.capacity k count) k v).items.Perm
        (Assoc.bind t.items k v) := by
  have positive : 0 < t.capacity := by omega
  have inside := path_lt positive k count
  have changed := put_slots (v := v) inside nonzero
  have perm : (t.put (path t.capacity k count) k v).items.Perm
      (Assoc.bind t.items k v) := by
    unfold MemHash.items
    rw [changed]
    exact wf.placed.bindings_put stop inside v
  -- the count grows exactly when the slot was unused
  have counts : (t.put (path t.capacity k count) k v).count =
      (Assoc.without t.items k).length + 1 := by
    have whole := bindings_update_perm t.slots inside (t.slots (path t.capacity k count))
    rw [Function.update_eq_self] at whole
    have after := (bindings_update_perm t.slots inside (some (k, v))).length_eq
    rw [(wf.placed.bindings_put stop inside v).length_eq] at after
    simp only [List.length_cons, List.length_append, Option.toList_some, List.length_nil] at after
    have before := whole.length_eq
    rw [List.length_append] at before
    have size : t.capacity ≤ 6420683 := by rcases wf.sized with h | ⟨_, h⟩ <;> omega
    by_cases free : (t.entries (path t.capacity k count)).k = 0
    · have unused : t.slots (path t.capacity k count) = none := by
        simp [MemHash.slots, free]
      rw [unused] at before
      simp only [Option.toList_none, List.length_nil, Nat.zero_add] at before
      have counted : t.count = (bindings t.slots t.capacity).length := wf.counted
      simp only [MemHash.put, free, if_true, MemHash.items]
      rw [u32_of_lt (by omega)]
      simp only [Assoc.length_bind] at after
      omega
    · have used : t.slots (path t.capacity k count) =
          some ((t.entries (path t.capacity k count)).k,
            (t.entries (path t.capacity k count)).v) := by
        simp [MemHash.slots, inside, free]
      rw [used] at before
      simp only [Option.toList_some, List.length_cons, List.length_nil] at before
      have counted : t.count = (bindings t.slots t.capacity).length := wf.counted
      simp only [MemHash.put, free, if_false, MemHash.items]
      simp only [Assoc.length_bind] at after
      omega
  refine ⟨⟨?_, ?_, wf.sized, ?_, ?_⟩, perm⟩
  · rw [changed]
    exact wf.placed.put early stop v
  · rw [counts, perm.length_eq, Assoc.length_bind]
  · have fewer : (Assoc.without t.items k).length ≤ t.items.length :=
      List.length_filter_le _ _
    have counted := wf.counted
    rw [counts]
    show _ ≤ t.capacity + 1
    omega
  · intro slot free
    by_cases here : slot = path t.capacity k count
    · subst here; simp [MemHash.put, nonzero] at free
    · simp only [MemHash.put, here, if_false] at free ⊢
      exact wf.cleared slot free

end Put

/-- The table `mem_hash_resize` starts from. -/
theorem empty_wf (capacity : Nat) (sized : capacity = 0 ∨ 3 ≤ capacity ∧ capacity ≤ 6420683) :
    (⟨0, capacity, emptyEntries⟩ : MemHash).Wf := by
  have none : ∀ slot, (⟨0, capacity, emptyEntries⟩ : MemHash).slots slot = none := by
    intro slot; simp [MemHash.slots, emptyEntries]
  refine ⟨?_, ?_, sized, by simp, fun _ _ => rfl⟩
  · intro slot key value held
    rw [none] at held
    cases held
  · simp [MemHash.items, bindings, none]

/-- A new table has no items. -/
@[simp] theorem empty_items (capacity : Nat) :
    (⟨0, capacity, emptyEntries⟩ : MemHash).items = [] := by
  simp [MemHash.items, bindings, MemHash.slots, emptyEntries]

/-- A table that is not crowded stores without a resize. -/
theorem MemHash.Wf.set_without_resize (wf : t.Wf) (nonzero : k ≠ 0)
    (spare : 2 * t.count + 1 ≤ t.capacity) (depth v : Nat) :
    ∃ after, memHashSetWithin (depth + 1) t k v = some after ∧ after.Wf ∧
      after.capacity = t.capacity ∧
      after.items.Perm (Assoc.bind t.items k v) := by
  have counted := wf.counted
  obtain ⟨count, early, stop⟩ := wf.exists_stop (by omega) k
  have found := memHashFind_of_stopsAt (by omega) stop 4294967296 0 (by omega) (by omega)
  have size : t.capacity ≤ 6420683 := by rcases wf.sized with h | ⟨_, h⟩ <;> omega
  have roomy : t.crowded = false := by
    simp only [MemHash.crowded, decide_eq_false_iff_not]
    rw [u32_of_lt (by omega)]
    omega
  obtain ⟨kept, perm⟩ := wf.put_spec (v := v) nonzero early stop spare
  refine ⟨_, ?_, kept, rfl, perm⟩
  simp [memHashSetWithin, roomy, found]

/-- The rehash moves the bindings of the old slots `i .. i + left - 1`. -/
theorem memHashRehash_spec {old : Nat → MemHashItem} {capacity bound : Nat} (depth : Nat)
    (roomy : 2 * bound + 1 ≤ capacity) (left : Nat) :
    ∀ (i : Nat) (t : MemHash), t.Wf → t.capacity = capacity →
      (∀ binding ∈ t.items, ∀ j, i ≤ j → j < i + left → (old j).k ≠ binding.1) →
      (∀ j j', i ≤ j → j < j' → j' < i + left → (old j).k ≠ 0 → (old j).k ≠ (old j').k) →
      t.items.length + ((List.range' i left).filter fun j => (old j).k ≠ 0).length ≤ bound →
      ∃ after, memHashRehash (memHashSetWithin (depth + 1)) old left i t = some after ∧
        after.Wf ∧ after.capacity = capacity ∧
        after.items.Perm (t.items ++ ((List.range' i left).filter fun j => (old j).k ≠ 0).map
          fun j => ((old j).k, (old j).v)) := by
  induction left with
  | zero =>
      intro i t wf sized _ _ _
      exact ⟨t, rfl, wf, sized, by simp⟩
  | succ left ih =>
      intro i t wf sized fresh distinct fits
      rw [List.range'_succ, List.filter_cons] at fits
      by_cases used : (old i).k ≠ 0
      · simp only [used, ne_eq, not_false_eq_true, decide_true, if_true, List.length_cons] at fits
        have counted := wf.counted
        obtain ⟨next, ran, nextWf, nextSized, perm⟩ :=
          wf.set_without_resize used (by omega) depth (old i).v
        -- the key is new, so nothing is replaced
        rw [Assoc.bind, Assoc.without_of_absent fun binding member =>
          (fresh binding member i (le_refl _) (by omega)).symm] at perm
        have freshNext : ∀ binding ∈ next.items, ∀ j, i + 1 ≤ j → j < i + 1 + left →
            (old j).k ≠ binding.1 := by
          intro binding member j low high
          rcases List.mem_cons.mp (perm.mem_iff.mp member) with rfl | older
          · exact (distinct i j (le_refl _) (by omega) (by omega) used).symm
          · exact fresh binding older j (by omega) (by omega)
        have fitsNext : next.items.length +
            ((List.range' (i + 1) left).filter fun j => (old j).k ≠ 0).length ≤ bound := by
          rw [perm.length_eq, List.length_cons]
          simp only [ne_eq] at fits ⊢
          omega
        obtain ⟨after, moved, wfAfter, sizedAfter, permAfter⟩ := ih (i + 1) next nextWf
          (nextSized.trans sized) freshNext
          (fun j j' low mid high => distinct j j' (by omega) mid (by omega)) fitsNext
        refine ⟨after, ?_, wfAfter, sizedAfter, ?_⟩
        · simp only [memHashRehash, used, ne_eq, not_false_eq_true, if_true, ran, Option.bind_some,
            moved]
        · refine permAfter.trans ?_
          rw [List.range'_succ, List.filter_cons]
          simp only [used, ne_eq, not_false_eq_true, decide_true, if_true, List.map_cons]
          refine (List.Perm.append_right _ perm).trans ?_
          exact List.perm_middle.symm
      · simp only [used, decide_false, Bool.false_eq_true, if_false] at fits
        obtain ⟨after, moved, wfAfter, sizedAfter, permAfter⟩ := ih (i + 1) t wf sized
          (fun binding member j low high => fresh binding member j (by omega) (by omega))
          (fun j j' low mid high => distinct j j' (by omega) mid (by omega)) fits
        refine ⟨after, ?_, wfAfter, sizedAfter, ?_⟩
        · simp only [memHashRehash, used, if_false, moved]
        · rw [List.range'_succ, List.filter_cons]
          simpa [used] using permAfter

/-- Up to `maxKeys` keys a listed size has room for them all. -/
theorem exists_hashSize {count : Nat} (few : count ≤ maxKeys) :
    ∃ capacity, hashSizes.find? (fun size => size ≥ u32 (count * 2 + 1)) = some capacity ∧
      2 * count + 1 ≤ capacity ∧ 3 ≤ capacity ∧ capacity ≤ 6420683 := by
  simp only [maxKeys] at few
  rw [u32_of_lt (by omega)]
  have last : (6420683 : Nat) ∈ hashSizes := by decide
  have found : (hashSizes.find? fun size => decide (size ≥ count * 2 + 1)).isSome := by
    rw [List.find?_isSome]
    exact ⟨6420683, last, by simpa using (by omega : count * 2 + 1 ≤ 6420683)⟩
  obtain ⟨capacity, here⟩ := Option.isSome_iff_exists.mp found
  have enough := List.find?_some here
  have member := List.mem_of_find?_eq_some here
  have listed : ∀ size ∈ hashSizes, 3 ≤ size ∧ size ≤ 6420683 := by decide
  refine ⟨capacity, here, ?_, listed capacity member⟩
  simp only [ge_iff_le, decide_eq_true_eq] at enough
  omega

/-- The old slots in the form the rehash reads them. -/
theorem items_eq_map (t : MemHash) :
    t.items = ((List.range t.capacity).filter fun j => (t.entries j).k ≠ 0).map
      fun j => ((t.entries j).k, (t.entries j).v) := by
  unfold MemHash.items bindings
  rw [← List.filterMap_eq_map, List.filterMap_filter]
  apply List.filterMap_congr
  intro slot member
  rw [List.mem_range] at member
  by_cases used : (t.entries slot).k ≠ 0 <;> simp [MemHash.slots, member, used]

/-- A resize to a larger size moves the bindings. -/
theorem memHashResize_moves {capacity : Nat}
    (placed : Probing.Placed t.slots (path t.capacity) 4294967296)
    (counted : t.items.length ≤ t.count)
    (found : hashSizes.find? (fun size => size ≥ u32 (t.count * 2 + 1)) = some capacity)
    (roomy : 2 * t.count + 1 ≤ capacity) (sized : 3 ≤ capacity ∧ capacity ≤ 6420683)
    (larger : t.capacity < capacity) (depth : Nat) :
    ∃ after, memHashResize (memHashSetWithin (depth + 1)) t = some after ∧ after.Wf ∧
      after.capacity = capacity ∧ after.items.Perm t.items := by
  have start := empty_wf capacity (.inr sized)
  -- distinct old slots hold distinct keys
  have distinct : ∀ j j', 0 ≤ j → j < j' → j' < 0 + t.capacity → (t.entries j).k ≠ 0 →
      (t.entries j).k ≠ (t.entries j').k := by
    intro j j' _ below inside used same
    have left : t.slots j = some ((t.entries j).k, (t.entries j).v) :=
      slots_eq_some.mpr ⟨by omega, used, rfl⟩
    have right : t.slots j' = some ((t.entries j).k, (t.entries j').v) :=
      slots_eq_some.mpr ⟨by omega, used, by rw [same]⟩
    have := placed.slot_unique left right
    omega
  have range : List.range' 0 t.capacity = List.range t.capacity := List.range_eq_range'.symm
  have size :
      ((List.range' 0 t.capacity).filter fun j => (t.entries j).k ≠ 0).length = t.items.length := by
    rw [items_eq_map, List.length_map, range]
  obtain ⟨after, moved, afterWf, afterSized, perm⟩ :=
    memHashRehash_spec depth roomy t.capacity 0 _ start rfl (by simp) distinct
      (by rw [empty_items, size]; simpa using counted)
  rw [empty_items, List.nil_append, range, ← items_eq_map] at perm
  have notSmaller : ¬t.capacity ≥ capacity := by omega
  exact ⟨after, by simp [memHashResize, found, notSmaller, moved], afterWf, afterSized, perm⟩

/-- A resize keeps the bindings and makes room for one more key. -/
theorem MemHash.Wf.resize_spec (wf : t.Wf) (crowded : t.capacity < 2 * t.count + 1)
    (few : t.count ≤ maxKeys) (depth : Nat) :
    ∃ after, memHashResize (memHashSetWithin (depth + 1)) t = some after ∧ after.Wf ∧
      2 * after.count + 1 ≤ after.capacity ∧ after.items.Perm t.items := by
  obtain ⟨capacity, found, roomy, sized⟩ := exists_hashSize few
  have counted := wf.counted
  obtain ⟨after, moved, afterWf, afterSized, perm⟩ :=
    memHashResize_moves wf.placed (by omega) found roomy sized (by omega) depth
  refine ⟨after, moved, afterWf, ?_, perm⟩
  rw [afterWf.counted, perm.length_eq, afterSized, ← counted]
  exact roomy

/-- No key occurs twice. -/
theorem MemHash.Wf.keys_nodup (wf : t.Wf) : (t.items.map Prod.fst).Nodup :=
  wf.placed.keys_nodup t.capacity

/-- `mem_hash_set` replaces the binding of one key, resizing when it must. -/
theorem MemHash.Wf.set_spec (wf : t.Wf) (nonzero : k ≠ 0)
    (few : (Assoc.without t.items k).length + 1 ≤ maxKeys) (v : Nat) :
    ∃ after, memHashSet t k v = some after ∧ after.Wf ∧
      after.items.Perm (Assoc.bind t.items k v) := by
  change ∃ after, memHashSetWithin (4294967295 + 1) t k v = some after ∧ _
  have counted := wf.counted
  have atMostOne := Assoc.length_le_without wf.keys_nodup k
  by_cases crowded : t.capacity < 2 * t.count + 1
  · obtain ⟨larger, resized, largerWf, spare, perm⟩ := wf.resize_spec crowded (by omega) 4294967294
    obtain ⟨after, ran, afterWf, _, stored⟩ :=
      largerWf.set_without_resize nonzero spare 4294967294 v
    have full : t.crowded = true := by
      simp only [MemHash.crowded, decide_eq_true_eq]
      rw [u32_of_lt (by simp only [maxKeys] at few; omega)]
      omega
    have calm : larger.crowded = false := by
      have size : larger.capacity ≤ 6420683 := by
        rcases largerWf.sized with h | ⟨_, h⟩ <;> omega
      simp only [MemHash.crowded, decide_eq_false_iff_not]
      rw [u32_of_lt (by omega)]
      omega
    refine ⟨after, ?_, afterWf, stored.trans ((perm.filter _).cons _)⟩
    change memHashSetWithin (4294967294 + 1) larger k v = some after at ran
    rw [memHashSetWithin] at ran ⊢
    simp only [full, calm, if_true, Bool.false_eq_true, if_false, resized, Option.bind_eq_bind,
      Option.bind_some] at ran ⊢
    exact ran
  · obtain ⟨after, ran, afterWf, _, stored⟩ :=
      wf.set_without_resize nonzero (by omega) 4294967295 v
    exact ⟨after, ran, afterWf, stored⟩

/-- `mem_hash_get` reads the binding of a key. -/
theorem MemHash.Wf.get_spec (wf : t.Wf) (k : Nat) : memHashGet t k = some (t.get k) := by
  unfold memHashGet
  by_cases empty : t.capacity = 0
  · simp [empty, MemHash.get, MemHash.items, bindings]
  · rw [if_neg empty]
    have counted := wf.counted
    have spare := wf.spare
    have sized := wf.sized
    obtain ⟨count, early, stop⟩ := wf.exists_stop (by omega) k
    have inside := path_lt (Nat.pos_of_ne_zero empty) k count
    rw [memHashFind_of_stopsAt (Nat.pos_of_ne_zero empty) stop 4294967296 0 (by omega) (by omega),
      Option.map_some, Option.some.injEq]
    unfold MemHash.get
    by_cases free : (t.entries (path t.capacity k count)).k = 0
    · -- the probe stopped at an unused slot, whose value is never written
      have absent : t.items.lookup k = none := by
        rw [List.lookup_eq_none_iff]
        rintro ⟨other, value⟩ member
        simp only [bne_iff_ne, ne_eq]
        rintro rfl
        obtain ⟨slot, _, held⟩ := mem_bindings.mp member
        have here := wf.placed.stop_slot stop held
        rw [← here] at held
        obtain ⟨_, used, entry⟩ := slots_eq_some.mp held
        rw [entry] at free
        exact used free
      rw [absent, wf.cleared _ free]
      rfl
    · have held : t.slots (path t.capacity k count) = some
          ((t.entries (path t.capacity k count)).k, (t.entries (path t.capacity k count)).v) :=
        slots_eq_some.mpr ⟨inside, free, rfl⟩
      have own := stop.stops _ _ held
      rw [own] at held
      rw [(Assoc.lookup_eq_some wf.keys_nodup).mpr (mem_bindings.mpr ⟨_, inside, held⟩)]
      rfl

/-- What a key is bound to after `mem_hash_set`. -/
theorem MemHash.get_of_perm {after : MemHash} (wf : t.Wf) (afterWf : after.Wf)
    (perm : after.items.Perm (Assoc.bind t.items k v)) (other : Nat) :
    after.get other = if other = k then v else t.get other := by
  unfold MemHash.get
  rw [Assoc.lookup_perm afterWf.keys_nodup perm, Assoc.lookup_bind wf.keys_nodup]
  by_cases same : other = k <;> simp [same]

/-- A run of `mem_hash_set` calls on a new table. -/
def memHashSets (sets : List (Nat × Nat)) : Option MemHash :=
  sets.foldlM (fun t set => memHashSet t set.1 set.2) memHashNew

/-- The value of the last set of a key, zero if there was none. -/
def lastSet (sets : List (Nat × Nat)) (k : Nat) : Nat := (sets.reverse.lookup k).getD 0

/-- What a run of sets leaves behind. -/
theorem memHashSets_spec (sets : List (Nat × Nat)) (nonzero : ∀ set ∈ sets, set.1 ≠ 0)
    (few : (sets.map Prod.fst).toFinset.card ≤ maxKeys) :
    ∃ t, memHashSets sets = some t ∧ t.Wf ∧
      (t.items.map Prod.fst).toFinset = (sets.map Prod.fst).toFinset ∧
      ∀ k, t.get k = lastSet sets k := by
  induction sets using List.reverseRecOn with
  | nil => exact ⟨memHashNew, rfl, empty_wf 0 (.inl rfl), by simp [memHashNew], fun k => rfl⟩
  | append_singleton sets set ih =>
      have monotone : (sets.map Prod.fst).toFinset ⊆ ((sets ++ [set]).map Prod.fst).toFinset := by
        intro key member
        simp only [List.map_append, List.toFinset_append, Finset.mem_union]
        exact .inl member
      obtain ⟨t, ran, wf, keys, values⟩ := ih
        (fun earlier member => nonzero earlier (by simp [member]))
        (le_trans (Finset.card_le_card monotone) few)
      -- the keys after this set are the keys set so far
      have keysAfter : ((Assoc.bind t.items set.1 set.2).map Prod.fst).toFinset =
          ((sets ++ [set]).map Prod.fst).toFinset := by
        ext key
        have older := Finset.ext_iff.mp keys key
        simp only [List.mem_toFinset, List.mem_map] at older
        simp only [List.mem_toFinset, List.map_append, List.mem_append, List.mem_map, Assoc.bind,
          List.mem_cons, Assoc.mem_without, ← older]
        constructor
        · rintro ⟨binding, rfl | ⟨member, _⟩, rfl⟩
          · exact .inr ⟨set, .inl rfl, rfl⟩
          · exact .inl ⟨binding, member, rfl⟩
        · rintro (⟨binding, member, rfl⟩ | ⟨binding, here, rfl⟩)
          · by_cases same : binding.1 = set.1
            · exact ⟨(set.1, set.2), .inl rfl, same.symm⟩
            · exact ⟨binding, .inr ⟨member, same⟩, rfl⟩
          · simp only [List.not_mem_nil, or_false] at here
            exact ⟨(set.1, set.2), .inl rfl, by rw [here]⟩
      have room : (Assoc.without t.items set.1).length + 1 ≤ maxKeys := by
        have nodup := Assoc.bind_nodup wf.keys_nodup set.1 set.2
        have counted := List.toFinset_card_of_nodup nodup
        rw [keysAfter, List.length_map, Assoc.length_bind] at counted
        omega
      obtain ⟨after, stored, afterWf, perm⟩ := wf.set_spec (nonzero set (by simp)) room set.2
      refine ⟨after, ?_, afterWf, ?_, ?_⟩
      · unfold memHashSets at ran ⊢
        rw [List.foldlM_append, ran]
        simp [stored]
      · rw [← keysAfter]
        exact List.toFinset_eq_of_perm _ _ (perm.map Prod.fst)
      · intro k
        rw [MemHash.get_of_perm wf afterWf perm, values]
        have last : lastSet (sets ++ [set]) k = ((set :: sets.reverse).lookup k).getD 0 := by
          rw [lastSet, List.reverse_append, List.reverse_singleton, List.singleton_append]
        rw [last]
        obtain ⟨key, value⟩ := set
        by_cases same : k = key
        · simp [same]
        · have skip : (k == key) = false := by simpa using same
          simp [same, List.lookup_cons, skip, lastSet]

/-- The table is a finite map: after any run of sets of at most `maxKeys`
distinct keys, each set and each lookup has ended, and a lookup yields the value
set last. -/
theorem memHash_refines_finite_map (sets : List (Nat × Nat)) (nonzero : ∀ set ∈ sets, set.1 ≠ 0)
    (few : (sets.map Prod.fst).toFinset.card ≤ maxKeys) :
    ∃ t, memHashSets sets = some t ∧ ∀ k, k ≠ 0 → memHashGet t k = some (lastSet sets k) := by
  obtain ⟨t, ran, wf, _, values⟩ := memHashSets_spec sets nonzero few
  refine ⟨t, ran, fun k _ => ?_⟩
  rw [wf.get_spec k, values]

/-- Four keys through two resizes, one of them set twice. -/
theorem memHash_refines_finite_map_resized :
    ∃ t, memHashSets [(5, 1), (6, 2), (7, 3), (5, 4), (8, 9)] = some t ∧
      ∀ k, k ≠ 0 → memHashGet t k = some (lastSet [(5, 1), (6, 2), (7, 3), (5, 4), (8, 9)] k) :=
  memHash_refines_finite_map _ (by decide) (by decide)

end EverDb
