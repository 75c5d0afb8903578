import EverDb.MemHash.Resize

/-!
# Keys that stay bound

In a table that may have seen keys of zero, a lookup finds a key that is bound, and
`mem_hash_set` keeps the binding of every other key.
-/

namespace EverDb

open Foundation Foundation.Probing MemHash

variable {t after : MemHash} {b k v w : Nat}

namespace MemHash.Loose

/-- `mem_hash_get` of a key that is bound. -/
theorem get_bound (loose : t.Loose) (bound : (b, w) ∈ t.items) : memHashGet t b = some w := by
  obtain ⟨slot, inside, held⟩ := mem_bindings.mp bound
  have positive : 0 < t.capacity := Nat.lt_of_le_of_lt (Nat.zero_le _) inside
  have counted := loose.counted
  have spare := loose.spare
  have size := loose.capacity_le
  have some_ : 1 ≤ t.items.length := List.length_pos_of_mem bound
  have roomy : t.items.length < t.capacity := by
    rcases loose.listed with empty | listed
    · omega
    · have := (hashSizes_range listed).1
      omega
  obtain ⟨count, early, stop⟩ := exists_stop (t := t) (by omega) roomy b
  have here : path t.capacity b count = slot := loose.placed.stop_slot stop held
  obtain ⟨_, _, entry⟩ := slots_eq_some.mp held
  unfold memHashGet
  rw [if_neg (Nat.ne_of_gt positive),
    memHashFind_of_stopsAt positive stop 4294967296 0 (by omega) (by omega),
      Option.map_some, here, entry]

/-- Storing where the probe stops keeps the other bindings. -/
theorem put_bound {count : Nat} (stop : StopsAt t.slots (path t.capacity k) k count)
    (bound : (b, w) ∈ t.items) (other : b ≠ k) (v : Nat) :
    (b, w) ∈ (t.put (path t.capacity k count) k v).items := by
  obtain ⟨slot, inside, held⟩ := mem_bindings.mp bound
  have apart : slot ≠ path t.capacity k count := by
    rintro rfl
    exact other (stop.stops _ _ held)
  refine mem_bindings.mpr ⟨slot, inside, ?_⟩
  unfold MemHash.slots at held ⊢
  simpa [MemHash.put, apart] using held

/-- A key of zero is not bound, any other key is once it is stored. -/
theorem put_binds (positive : 0 < t.capacity) (nonzero : k ≠ 0) (count v : Nat) :
    (k, v) ∈ (t.put (path t.capacity k count) k v).items := by
  have inside := path_lt positive k count
  refine mem_bindings.mpr ⟨path t.capacity k count, inside, ?_⟩
  rw [put_slots inside nonzero, Function.update_self]

/-- `mem_hash_set` once no resize is due. -/
theorem store_bound (loose : t.Loose) (spare : 2 * t.count + 1 ≤ t.capacity) {slot : Nat}
    (found : memHashFind t k (memHashHash k) 4294967296 0 = some slot) (v : Nat) :
    (∀ b w, b ≠ k → (b, w) ∈ t.items → (b, w) ∈ (t.put slot k v).items) ∧
      (k ≠ 0 → (k, v) ∈ (t.put slot k v).items) := by
  have size := loose.capacity_le
  have counted := loose.counted
  obtain ⟨count, early, stop⟩ := exists_stop (t := t) (by omega) (by omega) k
  rw [memHashFind_of_stopsAt (by omega) stop 4294967296 0 (by omega) (by omega),
    Option.some.injEq] at found
  rw [← found]
  exact ⟨fun b w other bound => put_bound stop bound other v, fun nonzero =>
    put_binds (by omega) nonzero count v⟩

/-- `mem_hash_set` keeps the bindings of the other keys and binds its own. -/
theorem set_bound (loose : t.Loose) (ran : memHashSet t k v = some after) :
    (∀ b w, b ≠ k → (b, w) ∈ t.items → (b, w) ∈ after.items) ∧ (k ≠ 0 → (k, v) ∈ after.items) := by
  obtain ⟨larger, slot, kept, spare, perm, _, found, rfl⟩ := loose.set_stores ran
  obtain ⟨others, own⟩ := kept.store_bound spare found v
  exact ⟨fun b w other bound => others b w other (perm.mem_iff.mpr bound), own⟩

end MemHash.Loose

end EverDb
