import EverDb.Foundation.Assoc
import Mathlib.Data.List.Range
import Mathlib.Data.Nat.Find
import Mathlib.Logic.Function.Basic
import Mathlib.Order.Basic

/-!
# Open addressing

A table maps slots to at most one binding each. Every key has a probe path, a
sequence of slots; a probe for a key stops at the first slot that is unused or
holds the key. The table is well placed when the path of every stored key passes
only slots of other keys before it reaches its own: then probing finds what is
stored, and storing where a probe stops keeps the table well placed.
-/

namespace EverDb.Foundation.Probing

variable {κ ν : Type}

/-- A table by slot. -/
abbrev Slots (κ ν : Type) := Nat → Option (κ × ν)

/-- Every slot before round `count` of a path holds another key. -/
def Passes (slots : Slots κ ν) (path : Nat → Nat) (key : κ) (count : Nat) : Prop :=
  ∀ round, round < count → ∃ other value, slots (path round) = some (other, value) ∧ other ≠ key

/-- A probe for `key` stops in round `count`. -/
structure StopsAt (slots : Slots κ ν) (path : Nat → Nat) (key : κ) (count : Nat) : Prop where
  passes : Passes slots path key count
  stops : ∀ other value, slots (path count) = some (other, value) → other = key

/-- Every stored key lies where its own path first meets it. -/
def Placed (slots : Slots κ ν) (path : κ → Nat → Nat) (rounds : Nat) : Prop :=
  ∀ slot key value, slots slot = some (key, value) →
    ∃ count, count < rounds ∧ path key count = slot ∧ Passes slots (path key) key count

variable {slots : Slots κ ν} {path : κ → Nat → Nat} {rounds count slot : Nat} {key : κ} {value : ν}

/-- A probe stops in one round only. -/
theorem StopsAt.unique {steps : Nat → Nat} {first second : Nat}
    (left : StopsAt slots steps key first) (right : StopsAt slots steps key second) :
    first = second := by
  rcases Nat.lt_trichotomy first second with low | same | high
  · obtain ⟨other, value, held, different⟩ := right.passes first low
    exact absurd (left.stops other value held) different
  · exact same
  · obtain ⟨other, value, held, different⟩ := left.passes second high
    exact absurd (right.stops other value held) different

/-- A probe stops at the latest at an unused slot. -/
theorem exists_stopsAt {steps : Nat → Nat}
    (unused : ∃ round, round < rounds ∧ slots (steps round) = none) (key : κ) :
    ∃ count, count < rounds ∧ StopsAt slots steps key count := by
  let stop : Nat → Prop := fun round => ∀ other value,
    slots (steps round) = some (other, value) → other = key
  obtain ⟨round, early, free⟩ := unused
  have stopped : ∃ round, stop round := ⟨round, fun other value held => by simp [free] at held⟩
  classical
  refine ⟨Nat.find stopped, lt_of_le_of_lt (Nat.find_min' stopped ?_) early, ?_, ?_⟩
  · intro other value held
    simp [free] at held
  · intro earlier before
    have goes := Nat.find_min stopped before
    simp only [stop, not_forall] at goes
    obtain ⟨other, value, held, different⟩ := goes
    exact ⟨other, value, held, different⟩
  · exact Nat.find_spec stopped

/-- A probe stops where its key is stored. -/
theorem Placed.stop_slot (placed : Placed slots path rounds)
    (stop : StopsAt slots (path key) key count) (held : slots slot = some (key, value)) :
    path key count = slot := by
  obtain ⟨found, _, reached, passes⟩ := placed slot key value held
  have stopsThere : StopsAt slots (path key) key found := by
    refine ⟨passes, fun other stored there => ?_⟩
    rw [reached, held] at there
    exact (Prod.mk.inj (Option.some.inj there)).1.symm
  rw [stop.unique stopsThere, reached]

/-- A key is stored in one slot only. -/
theorem Placed.slot_unique (placed : Placed slots path rounds) {other : Nat} {stored : ν}
    (left : slots slot = some (key, value)) (right : slots other = some (key, stored)) :
    slot = other := by
  obtain ⟨found, _, reached, passes⟩ := placed slot key value left
  have stopsThere : StopsAt slots (path key) key found := by
    refine ⟨passes, fun held kept there => ?_⟩
    rw [reached, left] at there
    exact (Prod.mk.inj (Option.some.inj there)).1.symm
  rw [← reached]
  exact placed.stop_slot stopsThere right

/-- Storing a key where its probe stops keeps the table well placed. -/
theorem Placed.put (placed : Placed slots path rounds) (early : count < rounds)
    (stop : StopsAt slots (path key) key count) (value : ν) :
    Placed (Function.update slots (path key count) (some (key, value))) path rounds := by
  -- a slot that a path passes stays passed: it never held the key of that path
  have keeps : ∀ other round, Passes slots (path other) other round →
      (∀ earlier, earlier < round → path other earlier = path key count → key ≠ other) →
      Passes (Function.update slots (path key count) (some (key, value)))
        (path other) other round := by
    intro other round passes apart earlier before
    by_cases here : path other earlier = path key count
    · exact ⟨key, value, by simp [here], apart earlier before here⟩
    · obtain ⟨held, kept, there, different⟩ := passes earlier before
      exact ⟨held, kept, by simp [here, there], different⟩
  intro slot other stored held
  by_cases here : slot = path key count
  · subst here
    rw [Function.update_self] at held
    obtain ⟨rfl, rfl⟩ := Prod.mk.inj (Option.some.inj held)
    refine ⟨count, early, rfl, keeps key count stop.passes ?_⟩
    intro earlier before same
    obtain ⟨between, kept, there, different⟩ := stop.passes earlier before
    rw [same] at there
    exact absurd (stop.stops between kept there) different
  · rw [Function.update_of_ne here] at held
    obtain ⟨round, within, reached, passes⟩ := placed slot other stored held
    refine ⟨round, within, reached, keeps other round passes ?_⟩
    rintro earlier before same rfl
    -- the path of the stored key would have stopped there before
    obtain ⟨between, kept, there, different⟩ := passes earlier before
    rw [same] at there
    exact different (stop.stops between kept there)

/-- The bindings of the first `size` slots, in slot order. -/
def bindings (slots : Slots κ ν) (size : Nat) : List (κ × ν) := (List.range size).filterMap slots

theorem mem_bindings {size : Nat} {binding : κ × ν} :
    binding ∈ bindings slots size ↔ ∃ slot, slot < size ∧ slots slot = some binding := by
  simp [bindings]

/-- The keys of a well placed table are distinct. -/
theorem Placed.keys_nodup (placed : Placed slots path rounds) (size : Nat) :
    ((bindings slots size).map Prod.fst).Nodup := by
  induction size with
  | zero => simp [bindings]
  | succ size ih =>
      rw [bindings, List.range_succ, List.filterMap_append, List.map_append, List.nodup_append]
      refine ⟨ih, ?_, ?_⟩
      · cases held : slots size <;> simp [held]
      · intro key earlier other last same
        subst same
        obtain ⟨⟨key, value⟩, member, rfl⟩ := List.mem_map.mp earlier
        obtain ⟨slot, below, held⟩ := mem_bindings.mp member
        cases there : slots size with
        | none => simp [there] at last
        | some binding =>
            simp only [List.filterMap_cons, there, List.filterMap_nil, List.map_cons,
              List.map_nil, List.mem_singleton] at last
            have here : slots size = some (key, binding.2) := by rw [there, last]
            have := placed.slot_unique held here
            omega

/-- Changing one slot: its binding stands before the bindings of the others. -/
theorem bindings_update_perm (slots : Slots κ ν) {size : Nat} (inside : slot < size)
    (binding : Option (κ × ν)) :
    (bindings (Function.update slots slot binding) size).Perm
      (binding.toList ++ ((List.range size).erase slot).filterMap slots) := by
  have split : (List.range size).Perm (slot :: (List.range size).erase slot) :=
    List.perm_cons_erase (List.mem_range.mpr inside)
  have others : ((List.range size).erase slot).filterMap (Function.update slots slot binding) =
      ((List.range size).erase slot).filterMap slots := by
    apply List.filterMap_congr
    intro other member
    have apart : other ≠ slot := by
      rintro rfl
      exact (List.nodup_range.not_mem_erase) member
    rw [Function.update_of_ne apart]
  have moved := split.filterMap (Function.update slots slot binding)
  rw [List.filterMap_cons, Function.update_self, others] at moved
  cases binding with
  | none => simpa [bindings] using moved
  | some binding => simpa [bindings] using moved

/-- Storing a key where its probe stops replaces its binding, or adds one. -/
theorem Placed.bindings_put [DecidableEq κ] (placed : Placed slots path rounds)
    (stop : StopsAt slots (path key) key count) {size : Nat} (inside : path key count < size)
    (value : ν) :
    (bindings (Function.update slots (path key count) (some (key, value))) size).Perm
      (Assoc.bind (bindings slots size) key value) := by
  refine (bindings_update_perm slots inside (some (key, value))).trans ?_
  simp only [Option.toList_some, List.singleton_append]
  refine List.Perm.cons _ ?_
  -- the other slots hold other keys
  have others : ∀ binding ∈ ((List.range size).erase (path key count)).filterMap slots,
      binding.1 ≠ key := by
    rintro ⟨other, kept⟩ member rfl
    obtain ⟨slot, inRange, held⟩ := List.mem_filterMap.mp member
    have here := placed.stop_slot stop held
    subst here
    exact (List.nodup_range.not_mem_erase) inRange
  have whole := bindings_update_perm slots inside (slots (path key count))
  rw [Function.update_eq_self] at whole
  refine List.Perm.trans ?_ (whole.filter _).symm
  rw [List.filter_append]
  have kept : (((List.range size).erase (path key count)).filterMap slots).filter
      (fun binding => binding.1 ≠ key) =
      ((List.range size).erase (path key count)).filterMap slots :=
    Assoc.without_of_absent others
  have own : (slots (path key count)).toList.filter (fun binding => binding.1 ≠ key) = [] := by
    cases held : slots (path key count) with
    | none => simp
    | some binding =>
        obtain ⟨other, stored⟩ := binding
        simp [stop.stops other stored held]
  rw [kept, own, List.nil_append]

end EverDb.Foundation.Probing
