import Mathlib.Data.List.Nodup
import Mathlib.Data.List.Perm.Basic

/-!
# Association lists with distinct keys

A list of bindings whose keys are distinct is a finite map: what it binds does
not depend on its order, and replacing one binding changes one key.
-/

namespace EverDb.Foundation.Assoc

variable {κ ν : Type} [DecidableEq κ] {left right : List (κ × ν)} {key other : κ} {value : ν}

/-- The bindings of the other keys. -/
def without (bindings : List (κ × ν)) (key : κ) : List (κ × ν) :=
  bindings.filter fun binding => binding.1 ≠ key

/-- Bind a key anew. -/
def bind (bindings : List (κ × ν)) (key : κ) (value : ν) : List (κ × ν) :=
  (key, value) :: without bindings key

theorem mem_without {binding : κ × ν} :
    binding ∈ without left key ↔ binding ∈ left ∧ binding.1 ≠ key := by
  simp [without]

theorem without_of_absent (absent : ∀ binding ∈ left, binding.1 ≠ key) :
    without left key = left := by
  rw [without, List.filter_eq_self]
  intro binding member
  simpa using absent binding member

/-- At most one binding has a given key. -/
theorem length_le_without (distinct : (left.map Prod.fst).Nodup) (key : κ) :
    left.length ≤ (without left key).length + 1 := by
  induction left with
  | nil => simp
  | cons first rest ih =>
      rw [List.map_cons, List.nodup_cons] at distinct
      by_cases here : first.1 = key
      · have others : without (first :: rest) key = rest := by
          rw [without, List.filter_cons, if_neg (by simp [here])]
          apply without_of_absent
          rintro binding member rfl
          exact distinct.1 (here ▸ List.mem_map_of_mem member)
        simp [others]
      · have kept : without (first :: rest) key = first :: without rest key := by
          rw [without, List.filter_cons, if_pos (by simp [here])]
          rfl
        have := ih distinct.2
        rw [kept, List.length_cons, List.length_cons]
        omega

/-- Distinct keys: a lookup finds exactly the listed binding. -/
theorem lookup_eq_some (distinct : (left.map Prod.fst).Nodup) :
    left.lookup key = some value ↔ (key, value) ∈ left := by
  induction left with
  | nil => simp
  | cons first rest ih =>
      obtain ⟨firstKey, firstValue⟩ := first
      rw [List.map_cons, List.nodup_cons] at distinct
      by_cases here : key = firstKey
      · subst here
        have absent : (key, value) ∉ rest := fun member =>
          distinct.1 (List.mem_map.mpr ⟨(key, value), member, rfl⟩)
        simp [absent, eq_comm]
      · have skip : (key == firstKey) = false := by simpa using here
        simp [List.lookup_cons, skip, ih distinct.2, here]

/-- A binding stands in front of those of the other keys. -/
theorem perm_cons_without (distinct : (left.map Prod.fst).Nodup) (member : (key, value) ∈ left) :
    left.Perm ((key, value) :: without left key) := by
  have alone : ∀ binding ∈ left, binding.1 = key → binding = (key, value) := by
    rintro ⟨other, stored⟩ there rfl
    have one := (lookup_eq_some distinct).mpr member
    have two := (lookup_eq_some distinct).mpr there
    rw [one, Option.some.injEq] at two
    rw [two]
  induction left with
  | nil => cases member
  | cons first rest ih =>
      rw [List.map_cons, List.nodup_cons] at distinct
      by_cases here : first.1 = key
      · have same := alone first List.mem_cons_self here
        subst same
        have others : without ((key, value) :: rest) key = rest := by
          rw [without, List.filter_cons, if_neg (by simp)]
          apply without_of_absent
          rintro binding there rfl
          exact distinct.1 (List.mem_map.mpr ⟨binding, there, rfl⟩)
        rw [others]
      · have kept : without (first :: rest) key = first :: without rest key := by
          rw [without, List.filter_cons, if_pos (by simp [here])]
          rfl
        rw [kept]
        rcases List.mem_cons.mp member with rfl | later
        · exact absurd rfl here
        · exact ((ih distinct.2 later fun binding there =>
            alone binding (List.mem_cons_of_mem _ there)).cons first).trans (.swap _ _ _)

/-- What a list with distinct keys binds does not depend on its order. -/
theorem lookup_perm (distinct : (left.map Prod.fst).Nodup) (same : left.Perm right) (key : κ) :
    left.lookup key = right.lookup key := by
  apply Option.ext
  intro value
  rw [lookup_eq_some distinct, lookup_eq_some ((same.map Prod.fst).nodup_iff.mp distinct),
    same.mem_iff]

@[simp] theorem length_bind (bindings : List (κ × ν)) (key : κ) (value : ν) :
    (bind bindings key value).length = (without bindings key).length + 1 := rfl

theorem without_nodup (distinct : (left.map Prod.fst).Nodup) (key : κ) :
    ((without left key).map Prod.fst).Nodup :=
  distinct.sublist (List.filter_sublist.map _)

theorem bind_nodup (distinct : (left.map Prod.fst).Nodup) (key : κ) (value : ν) :
    ((bind left key value).map Prod.fst).Nodup := by
  rw [bind, List.map_cons, List.nodup_cons]
  refine ⟨?_, without_nodup distinct key⟩
  intro member
  obtain ⟨binding, inside, same⟩ := List.mem_map.mp member
  exact (mem_without.mp inside).2 same

/-- Binding a key changes that key only. -/
theorem lookup_bind (distinct : (left.map Prod.fst).Nodup) :
    (bind left key value).lookup other = if other = key then some value else left.lookup other := by
  by_cases same : other = key
  · subst same; simp [bind]
  · rw [if_neg same]
    apply Option.ext
    intro stored
    rw [lookup_eq_some (bind_nodup distinct key value), lookup_eq_some distinct, bind,
      List.mem_cons, mem_without]
    simp [same]

end EverDb.Foundation.Assoc
