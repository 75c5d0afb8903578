import EverDb.MemHash.Resize
import Mathlib.Order.Interval.Finset.Nat
import Mathlib.Tactic.NormNum.Prime

/-!
# How far a probe goes

Triangular probing in a table of prime size `p` visits `(p + 1) / 2` slots, as many as the
table may hold before it is resized. So the first `p` probes for a key meet the key or an
unused slot, unless the table is at its fullest and the keys lie on exactly these slots.
Below `65536` slots no product of the probe overflows.
-/

namespace EverDb

open Foundation Foundation.Probing MemHash

/-- One of the first `capacity` probes for a key finds an unused slot or the key. A table
without slots is not probed. -/
def ProbeBounded (t : MemHash) (k : Nat) : Prop :=
  t.capacity = 0 ∨ ∃ i, i < t.capacity ∧
    ((t.entries (path t.capacity k i)).k = 0 ∨ (t.entries (path t.capacity k i)).k = k)

/-- The slots of the first `capacity` probes for a key. -/
def probeSlots (capacity k : Nat) : Finset Nat := (Finset.range capacity).image (path capacity k)

/-- The table is as full as a set leaves it, the key is not in it, and the used slots are
those that the key probes. -/
structure Blocked (t : MemHash) (k : Nat) : Prop where
  full : 2 * t.count = t.capacity + 1
  absent : ∀ binding ∈ t.items, binding.1 ≠ k
  used : ∀ slot, slot < t.capacity → ((t.entries slot).k ≠ 0 ↔ slot ∈ probeSlots t.capacity k)

variable {t : MemHash} {k capacity : Nat}

theorem hashSizes_prime (listed : capacity ∈ hashSizes) (small : capacity < 65536) :
    capacity.Prime ∧ capacity % 2 = 1 := by
  simp only [hashSizes, List.mem_cons, List.not_mem_nil, or_false] at listed
  rcases listed with h | h | h | h | h | h | h | h | h | h | h | h | h | h | h | h | h | h | h |
    h | h | h | h | h |
    h | h | h | h | h <;> subst h <;> first | omega | exact ⟨by norm_num, by decide⟩

/-- The distance of a probe below round `65536`. -/
theorem wrapped_eq {i : Nat} (small : i < 65536) : Triangular.wrapped 31 i = (i * i + i) / 2 := by
  have bound : i * i + i < 4294967296 := by nlinarith
  unfold Triangular.wrapped
  rw [Nat.mod_eq_of_lt (show i * i + i < 2 ^ (31 + 1) from bound)]

theorem half_le {i j : Nat} (ordered : i ≤ j) : (i * i + i) / 2 ≤ (j * j + j) / 2 := by
  have grows : i * i + i ≤ j * j + j := by nlinarith
  omega

/-- Rounds on one side of the middle, all before or all after the sum wraps, visit different
slots. -/
theorem probe_distinct {first last wrap : Nat} (isPrime : capacity.Prime) (small : capacity < 65536)
    (upper : last ≤ capacity) (sides : 2 * last ≤ capacity + 1 ∨ capacity ≤ 2 * first + 1)
    (reduced : ∀ i, first ≤ i → i < last →
      u32 (memHashHash k + (i * i + i) / 2) + wrap = memHashHash k + (i * i + i) / 2) :
    Set.InjOn (path capacity k) (Finset.Ico first last) := by
  have apart : ∀ i j, first ≤ i → i < j → j < last → path capacity k i ≠ path capacity k j := by
    intro i j low before high same
    have sameSum : u32 (memHashHash k + (i * i + i) / 2) ≡ u32
        (memHashHash k + (j * j + j) / 2) [MOD capacity] := by
      have here := same
      simp only [path, memHashProbe_eq] at here
      rwa [wrapped_eq (by omega), wrapped_eq (by omega)] at here
    have shifted := sameSum.add_right wrap
    rw [reduced i low (by omega), reduced j (by omega) high] at shifted
    rcases Triangular.congruent_dvd isPrime (Nat.le_of_lt before) shifted with gap | sum
    · have := Nat.le_of_dvd (by omega) gap
      omega
    · -- the sum of the rounds lies strictly between two multiples
      obtain ⟨factor, product⟩ := sum
      rcases sides with lower | higher
      · have := Nat.le_of_dvd (by omega) (Dvd.intro factor product.symm)
        omega
      · rcases Nat.lt_or_ge factor 2 with less | more
        · obtain rfl | rfl : factor = 0 ∨ factor = 1 := by omega
          all_goals omega
        · have := Nat.mul_le_mul_left capacity more
          omega
  intro i inI j inJ same
  obtain ⟨lowI, highI⟩ := Finset.mem_Ico.mp (Finset.mem_coe.mp inI)
  obtain ⟨lowJ, highJ⟩ := Finset.mem_Ico.mp (Finset.mem_coe.mp inJ)
  rcases Nat.lt_trichotomy i j with before | equal | behind
  · exact absurd same (apart i j lowI before highJ)
  · exact equal
  · exact absurd same.symm (apart j i lowJ behind highI)

/-- Probing visits more than half of the slots. -/
theorem half_le_probeSlots (isPrime : capacity.Prime) (odd : capacity % 2 = 1)
    (small : capacity < 65536) (k : Nat) :
    capacity + 1 ≤ 2 * (probeSlots capacity k).card := by
  have start := memHashHash_lt k
  have counts : ∀ first last wrap, last ≤ capacity →
      (2 * last ≤ capacity + 1 ∨ capacity ≤ 2 * first + 1) →
      (∀ i, first ≤ i → i < last →
        u32 (memHashHash k + (i * i + i) / 2) + wrap = memHashHash k + (i * i + i) / 2) →
      last - first ≤ (probeSlots capacity k).card := by
    intro first last wrap upper sides reduced
    have distinct := Finset.card_image_of_injOn (probe_distinct isPrime small upper sides reduced)
    rw [Nat.card_Ico] at distinct
    rw [← distinct]
    refine Finset.card_le_card (Finset.image_subset_image fun i member => ?_)
    exact Finset.mem_range.mpr (Nat.lt_of_lt_of_le (Finset.mem_Ico.mp member).2 upper)
  let middle := (capacity - 1) / 2
  by_cases wraps : memHashHash k + (middle * middle + middle) / 2 < 4294967296
  · have lower := counts 0 (middle + 1) 0 (by omega) (.inl (by omega)) (fun i _ below => by
      have grows := half_le (show i ≤ middle by omega)
      rw [u32_of_lt (by omega), Nat.add_zero])
    omega
  · have upper :=
      counts middle capacity 4294967296 (Nat.le_refl _) (.inr (by omega)) (fun i above below => by
      have grows := half_le above
      have bound : i * i + i < 4294967296 := by nlinarith
      unfold u32
      omega)
    omega

/-- The slots that hold another key, counted. -/
theorem otherSlots_card (t : MemHash) (k : Nat) :
    ((Finset.range t.capacity).filter fun slot => (t.entries slot).k ≠ 0 ∧
      (t.entries slot).k ≠ k).card =
      (Assoc.without t.items k).length := by
  have asList : ((Finset.range t.capacity).filter fun slot => (t.entries slot).k ≠ 0 ∧
      (t.entries slot).k ≠ k).card =
      ((List.range t.capacity).filter fun slot => (t.entries slot).k ≠ 0 ∧
        (t.entries slot).k ≠ k).length := rfl
  rw [asList, items_eq_map, Assoc.without, List.filter_map, List.length_map, List.filter_filter]
  congr 2
  funext slot
  simp [Function.comp, and_comm]

/-- Probes that all meet other keys visit slots of other keys only. -/
theorem probeSlots_subset (unbounded : ¬ProbeBounded t k) :
    probeSlots t.capacity k ⊆
      (Finset.range t.capacity).filter fun slot => (t.entries slot).k ≠ 0 ∧
      (t.entries slot).k ≠ k := by
  obtain ⟨positive, passes⟩ := not_or.mp unbounded
  intro slot member
  obtain ⟨i, inside, rfl⟩ := Finset.mem_image.mp member
  refine Finset.mem_filter.mpr
    ⟨Finset.mem_range.mpr (path_lt (Nat.pos_of_ne_zero positive) k i), ?_⟩
  exact not_or.mp fun met => passes ⟨i, Finset.mem_range.mp inside, met⟩

/-- A bounded number of probes suffices exactly when the key is not blocked. -/
theorem MemHash.Loose.bounded_iff (loose : t.Loose) (nonzero : k ≠ 0) (small : t.capacity < 65536) :
    ProbeBounded t k ↔ ¬Blocked t k := by
  have others := otherSlots_card t k
  have fewer : (Assoc.without t.items k).length ≤ t.items.length := List.length_filter_le _ _
  have counted := loose.counted
  have spare := loose.spare
  refine ⟨fun bounded blocked => ?_, fun free => ?_⟩
  · rcases bounded with empty | ⟨i, inside, unused | holds⟩
    · have := blocked.full
      omega
    · have slot : path t.capacity k i ∈ probeSlots t.capacity k :=
        Finset.mem_image.mpr ⟨i, Finset.mem_range.mpr inside, rfl⟩
      exact (blocked.used _ (path_lt (by omega) k i)).mpr slot unused
    · have entry : t.entries (path t.capacity k i) = ⟨k, (t.entries (path t.capacity k i)).v⟩ :=
        congrArg (fun key => MemHashItem.mk key (t.entries (path t.capacity k i)).v) holds
      have held : t.slots (path t.capacity k i) = some (k, (t.entries (path t.capacity k i)).v) :=
        slots_eq_some.mpr ⟨path_lt (by omega) k i, nonzero, entry⟩
      have member : (k, (t.entries (path t.capacity k i)).v) ∈ t.items :=
        mem_bindings.mpr ⟨_, path_lt (by omega) k i, held⟩
      exact blocked.absent _ member rfl
  · by_contra unbounded
    have subset := probeSlots_subset unbounded
    have visited := Finset.card_le_card subset
    have positive := (not_or.mp unbounded).1
    obtain ⟨isPrime, odd⟩ := hashSizes_prime (loose.listed.resolve_left positive) small
    have half := half_le_probeSlots isPrime odd small k
    -- the visited slots, the slots of other keys and the keys are equally many
    have all : (Assoc.without t.items k).length = t.items.length := by omega
    have absent : ∀ binding ∈ t.items, binding.1 ≠ k := by
      have kept : Assoc.without t.items k = t.items := by
        unfold Assoc.without at all ⊢
        exact List.filter_eq_self.mpr (List.length_filter_eq_length_iff.mp all)
      intro binding member
      rw [← kept] at member
      exact (Assoc.mem_without.mp member).2
    have same := Finset.eq_of_subset_of_card_le subset (by omega)
    refine free ⟨by omega, absent, fun slot inside => ?_⟩
    rw [same, Finset.mem_filter, Finset.mem_range]
    constructor
    · intro used
      have held : t.slots slot = some ((t.entries slot).k, (t.entries slot).v) :=
        slots_eq_some.mpr ⟨inside, used, rfl⟩
      exact ⟨inside, used, absent _ (mem_bindings.mpr ⟨slot, inside, held⟩)⟩
    · intro found
      exact found.2.1

/-- In a table that a run of sets leaves, a key's first `capacity` probes meet it or an
unused slot whenever they visit more slots than other keys are stored. Below `65536` slots
they do so exactly when the key is not blocked. -/
theorem probe_bounded_iff {sets : List (Nat × Nat)} (ran : memHashSets sets = some t)
    (nonzero : k ≠ 0) :
    ((Assoc.without t.items k).length < (probeSlots t.capacity k).card → ProbeBounded t k) ∧
      (t.capacity < 65536 → (ProbeBounded t k ↔ ¬Blocked t k)) := by
  have loose : t.Loose := by
    rw [← memHashSetsSlots_fst] at ran
    obtain ⟨⟨table, slots⟩, reached, rfl⟩ := Option.map_eq_some_iff.mp ran
    exact (memHashSetsSlots_loose reached).1
  refine ⟨fun more => ?_, loose.bounded_iff nonzero⟩
  by_contra unbounded
  have visited := Finset.card_le_card (probeSlots_subset unbounded)
  rw [otherSlots_card] at visited
  omega

/-- A table of seven slots at its fullest. The second probe for the key 6 meets an unused
slot. -/
theorem probe_bounded_four : ∃ t, memHashSets [(1, 1), (2, 2), (3, 3), (4, 4)] = some t ∧
    2 * t.count = t.capacity + 1 ∧ ProbeBounded t 6 := by
  have shape : (memHashSets [(1, 1), (2, 2), (3, 3), (4, 4)]).map
      (fun t => (t.count, t.capacity, (t.entries 1).k)) = some (4, 7, 0) := by
    decide +kernel
  obtain ⟨t, ran, fields⟩ := Option.map_eq_some_iff.mp shape
  obtain ⟨count, rest⟩ := Prod.mk.inj fields
  obtain ⟨capacity, unused⟩ := Prod.mk.inj rest
  refine ⟨t, ran, by omega,
    ((probe_bounded_iff ran (by decide)).2 (by omega)).mpr fun blocked => ?_⟩
  have probed : 1 ∈ probeSlots t.capacity 6 := by
    rw [capacity]
    exact Finset.mem_image.mpr ⟨1, by decide, by decide⟩
  exact (blocked.used 1 (by omega)).mpr probed unused

/-- In a table of three slots with the keys 1 and 2, every probe for the key 3 meets one
of them. -/
theorem probe_unbounded : ∃ t, memHashSets [(1, 1), (2, 1)] = some t ∧ ¬ProbeBounded t 3 := by
  have passes :
      (memHashSets [(1, 1), (2, 1)]).map (fun t => (t.capacity, (List.range 3).all fun i =>
      (t.entries (path 3 3 i)).k ≠ 0 && (t.entries (path 3 3 i)).k ≠ 3)) = some (3, true) := by
    decide +kernel
  obtain ⟨t, ran, shape⟩ := Option.map_eq_some_iff.mp passes
  obtain ⟨capacity, met⟩ := Prod.mk.inj shape
  refine ⟨t, ran, ?_⟩
  rintro (empty | ⟨i, inside, found⟩)
  · omega
  · rw [capacity] at inside found
    have other := List.all_eq_true.mp met i (List.mem_range.mpr inside)
    simp only [ne_eq, Bool.and_eq_true, decide_eq_true_eq] at other
    rcases found with unused | holds
    · exact other.1 unused
    · exact other.2 holds

end EverDb
