import EverDb.Block.Contract
import Mathlib.Data.Finset.Card
import Mathlib.Data.List.Perm.Subperm
import Mathlib.Order.Interval.Finset.Nat

/-!
# An allocator that answers by its history

`recorder` keeps the list of its calls. Each request for a block is answered by a
function of the calls so far, which may refuse it at any time, and a block is taken
back only while it is out. `edb_modify_block` returns its argument, as it does for
the unit tests.
-/

namespace EverDb

open Foundation

/-- A call of the allocator. -/
inductive BlockEvent where
  | taken (block : Nat)
  | given (block : Nat)
  | refused
  deriving DecidableEq, Repr

/-- The blocks obtained and not yet given back. The latest call comes first. -/
def outstanding : List BlockEvent → List Nat
  | [] => []
  | .taken block :: past => block :: outstanding past
  | .given block :: past => (outstanding past).erase block
  | .refused :: past => outstanding past

/-- The block functions over the list of calls. A block that is not out cannot be
given back: such a call has no result. -/
def recorder (answer : List BlockEvent → Option Nat) : BlockApi (Db (List BlockEvent)) where
  allocate := fun db =>
    match answer db.ctl with
    | some block => .ok block { db with ctl := .taken block :: db.ctl }
    | none => .error (-1) { db with ctl := .refused :: db.ctl }
  modify := fun block => .ret block
  free := fun block db =>
    if block ∈ outstanding db.ctl then .ok () { db with ctl := .given block :: db.ctl } else .stuck

/-- The answers are 32-bit block numbers that are not out. -/
def FreshAnswers (answer : List BlockEvent → Option Nat) : Prop :=
  ∀ history block, answer history = some block →
    block ∉ outstanding history ∧ 0 < block ∧ block < 4294967296

/-- Every request is granted while a block number is left. -/
def Grants (answer : List BlockEvent → Option Nat) : Prop :=
  ∀ history, (outstanding history).length < 4294967295 → ∃ block, answer history = some block

variable {answer : List BlockEvent → Option Nat} {own : Ownership} {db : Db (List BlockEvent)}

/-- The client holds the blocks that are out and may write to each of them. -/
structure RecorderValid (own : Ownership) (db : Db (List BlockEvent)) : Prop where
  kept : ∀ block, own.kept block ↔ block ∈ outstanding db.ctl
  usable : ∀ block, own.usable block ↔ block ∈ outstanding db.ctl
  live : ∀ block, own.live block ↔ block ∈ outstanding db.ctl
  writable : ∀ block, own.writable block ↔ block ∈ outstanding db.ctl
  distinct : (outstanding db.ctl).Nodup
  numbers : ∀ block ∈ outstanding db.ctl, 0 < block ∧ block < 4294967296
  room : own.room + (outstanding db.ctl).length = 4294967295

namespace RecorderValid

/-- What a valid recorder holds is well formed. -/
theorem wf (valid : RecorderValid own db) : own.Wf where
  writable_live := fun block here => (valid.live block).mpr ((valid.writable block).mp here)
  live_usable := fun block here => (valid.usable block).mpr ((valid.live block).mp here)
  usable_kept := fun block here => (valid.kept block).mpr ((valid.usable block).mp here)
  positive := fun block here => (valid.numbers block ((valid.kept block).mp here)).1
  bounded := fun block here => (valid.numbers block ((valid.kept block).mp here)).2

/-- The bytes of the blocks do not matter to the allocator, nor do refusals. -/
theorem congr (valid : RecorderValid own db) {after : Db (List BlockEvent)}
    (same : outstanding after.ctl = outstanding db.ctl) : RecorderValid own after := by
  constructor
  · rw [same]; exact valid.kept
  · rw [same]; exact valid.usable
  · rw [same]; exact valid.live
  · rw [same]; exact valid.writable
  · rw [same]; exact valid.distinct
  · rw [same]; exact valid.numbers
  · rw [same]; exact valid.room

/-- A granted request. -/
theorem take (valid : RecorderValid own db) (room : 0 < own.room) {block : Nat}
    (fresh : block ∉ outstanding db.ctl) (number : 0 < block ∧ block < 4294967296) :
    RecorderValid (own.taken block) { db with ctl := .taken block :: db.ctl } := by
  have added : ∀ other, other ∈ outstanding (.taken block :: db.ctl) ↔
      other ∈ outstanding db.ctl ∨ other = block := by
    intro other
    rw [outstanding, List.mem_cons, or_comm]
  have total := valid.room
  constructor
  · exact fun other => Iff.trans (or_congr_left (valid.kept other)) (added other).symm
  · exact fun other => Iff.trans (or_congr_left (valid.usable other)) (added other).symm
  · exact fun other => Iff.trans (or_congr_left (valid.live other)) (added other).symm
  · exact fun other => Iff.trans (or_congr_left (valid.writable other)) (added other).symm
  · exact List.nodup_cons.mpr ⟨fresh, valid.distinct⟩
  · intro other member
    rcases (added other).mp member with old | rfl
    · exact valid.numbers other old
    · exact number
  · simp only [Ownership.taken, outstanding, List.length_cons]
    omega

/-- A block given back. -/
theorem giveBack (valid : RecorderValid own db) {block : Nat} (out : block ∈ outstanding db.ctl) :
    RecorderValid (own.freed block) { db with ctl := .given block :: db.ctl } := by
  have left : ∀ other, other ∈ outstanding (.given block :: db.ctl) ↔
      other ∈ outstanding db.ctl ∧ other ≠ block := by
    intro other
    rw [outstanding, valid.distinct.mem_erase_iff, and_comm]
  have writable := (valid.writable block).mpr out
  have total := valid.room
  have shorter := List.length_erase_of_mem out
  have some : 0 < (outstanding db.ctl).length := List.length_pos_of_mem out
  constructor
  · intro other
    rw [left other, ← valid.kept other]
    exact and_congr_right fun _ => not_congr (and_iff_right writable)
  · exact fun other => Iff.trans (and_congr_left fun _ => valid.live other) (left other).symm
  · exact fun other => Iff.trans (and_congr_left fun _ => valid.live other) (left other).symm
  · exact fun other => Iff.trans (and_congr_left fun _ => valid.writable other) (left other).symm
  · exact valid.distinct.erase block
  · exact fun other member => valid.numbers other ((left other).mp member).1
  · simp only [Ownership.freed, writable, if_true, outstanding, shorter]
    omega

/-- With room left, few blocks are outstanding. -/
theorem few (valid : RecorderValid own db) (room : 0 < own.room) :
    (outstanding db.ctl).length < 4294967295 := by
  have total := valid.room
  omega

end RecorderValid

/-- The recorder keeps the promises, without ever copying. -/
def recorderContract (fresh : FreshAnswers answer) (grants : Grants answer) :
    BlockContract (recorder answer) where
  Valid := RecorderValid
  wf := fun valid => valid.wf
  write := fun valid _ _ => valid.congr rfl
  allocate := by
    intro own db valid room
    obtain ⟨block, granted⟩ := grants db.ctl (valid.few room)
    obtain ⟨unused, number⟩ := fresh db.ctl block granted
    refine ⟨block, { db with ctl := .taken block :: db.ctl }, ?_, ?_, valid.take room unused number,
      fun _ _ => rfl⟩
    · simp only [recorder, granted]
    · exact fun kept => unused ((valid.kept block).mp kept)
  modify_writable := fun _ _ => rfl
  modify_copy := fun {own db block} valid usable committed _ =>
    absurd ((valid.writable block).mpr ((valid.usable block).mp usable)) committed
  free := by
    intro own db block valid live
    have out := (valid.live block).mp live
    exact ⟨_, if_pos out, valid.giveBack out, fun _ _ => rfl⟩

/-- A client that holds the blocks that are out. -/
def holding (history : List BlockEvent) : Ownership where
  kept block := block ∈ outstanding history
  usable block := block ∈ outstanding history
  live block := block ∈ outstanding history
  writable block := block ∈ outstanding history
  room := 4294967295 - (outstanding history).length

/-- Distinct 32-bit numbers are fewer than all of them. -/
theorem length_le_of_numbers {blocks : List Nat} (distinct : blocks.Nodup)
    (numbers : ∀ block ∈ blocks, 0 < block ∧ block < 4294967296) : blocks.length ≤ 4294967295 := by
  have inside : blocks.toFinset ⊆ Finset.Ico 1 4294967296 := by
    intro block member
    obtain ⟨positive, bounded⟩ := numbers block (List.mem_toFinset.mp member)
    exact Finset.mem_Ico.mpr ⟨positive, bounded⟩
  have count := Finset.card_le_card inside
  rw [List.toFinset_card_of_nodup distinct, Nat.card_Ico] at count
  exact count

/-- The recorder holds what its history has given out and not taken back. -/
theorem holding_valid (distinct : (outstanding db.ctl).Nodup)
    (numbers : ∀ block ∈ outstanding db.ctl, 0 < block ∧ block < 4294967296) :
    RecorderValid (holding db.ctl) db where
  kept := fun _ => Iff.rfl
  usable := fun _ => Iff.rfl
  live := fun _ => Iff.rfl
  writable := fun _ => Iff.rfl
  distinct := distinct
  numbers := numbers
  room := Nat.sub_add_cancel (length_le_of_numbers distinct numbers)

/-- The least block number that is not out. -/
def leastUnused (history : List BlockEvent) : Option Nat :=
  (List.range 4294967296).find? fun block => 0 < block && !(outstanding history).contains block

/-- The least unused number is not in use. -/
theorem leastUnused_fresh : FreshAnswers leastUnused := by
  intro history block found
  have here := List.find?_some found
  have bounded := List.mem_range.mp (List.mem_of_find?_eq_some found)
  simp only [Bool.and_eq_true, decide_eq_true_eq, Bool.not_eq_true', List.contains_eq_mem,
    decide_eq_false_iff_not] at here
  exact ⟨here.2, here.1, bounded⟩

/-- There always is a least unused number. -/
theorem leastUnused_grants : Grants leastUnused := by
  intro history room
  have fewer : (outstanding history).toFinset.card < (Finset.Ico 1 4294967296).card := by
    rw [Nat.card_Ico]
    exact Nat.lt_of_le_of_lt (List.toFinset_card_le _) room
  obtain ⟨block, number, unused⟩ := Finset.exists_mem_notMem_of_card_lt_card fewer
  obtain ⟨positive, bounded⟩ := Finset.mem_Ico.mp number
  rw [List.mem_toFinset] at unused
  have some : (leastUnused history).isSome := by
    rw [leastUnused, List.find?_isSome]
    exact ⟨block,
      List.mem_range.mpr bounded, by simp [unused, Nat.lt_of_lt_of_le Nat.zero_lt_one positive]⟩
  exact Option.isSome_iff_exists.mp some

/-- The same answers, with a block where `answer` refuses. -/
def steady (answer : List BlockEvent → Option Nat) (history : List BlockEvent) : Option Nat :=
  (answer history).or (leastUnused history)

/-- A supply that grants a request grants it when made steady. -/
theorem steady_of_some {history : List BlockEvent} {block : Nat}
    (granted : answer history = some block) :
    steady answer history = some block := by rw [steady, granted, Option.some_or]

/-- A supply made steady gives out numbers that are not in use. -/
theorem steady_fresh (fresh : FreshAnswers answer) : FreshAnswers (steady answer) := by
  intro history block granted
  cases given : answer history with
  | some other =>
      rw [steady_of_some given, Option.some.injEq] at granted
      exact granted ▸ fresh history other given
  | none =>
      rw [steady, given, Option.none_or] at granted
      exact leastUnused_fresh history block granted

/-- A supply made steady grants every request. -/
theorem steady_grants : Grants (steady answer) := by
  intro history room
  cases given : answer history with
  | some other => exact ⟨other, steady_of_some given⟩
  | none =>
      rw [steady, given, Option.none_or]
      exact leastUnused_grants history room

/-- The promises of the recorder once it refuses no more. -/
def steadyContract (fresh : FreshAnswers answer) : BlockContract (recorder (steady answer)) :=
  recorderContract (steady_fresh fresh) steady_grants

/-- An allocator that refuses every request. -/
def refuseAll (_ : List BlockEvent) : Option Nat := none

/-- The supply that refuses everything gives out nothing. -/
theorem refuseAll_fresh : FreshAnswers refuseAll := fun _ _ granted => by cases granted

end EverDb
