import EverDb.Foundation.Code

/-!
# Invariants of calls

A call keeps an invariant when the invariant holds wherever the call returns, with a
value or with an error code. The rules below follow the constructions of `Code`, so the
proof for a translated function has the shape of the function.
-/

namespace EverDb.Foundation.Code

variable {σ α β : Type}

/-- Wherever the call returns, the invariant still holds. -/
structure Keeps (Inv : σ → Prop) (call : Code σ α) : Prop where
  run : ∀ state, Inv state →
    match call state with
    | .ok _ after => Inv after
    | .error _ after => Inv after
    | .stuck => True

namespace Keeps

variable {Inv : σ → Prop} {call : Code σ α}

/-- The property holds after a call that ends well. -/
theorem of_ok (keeps : Keeps Inv call) {state after : σ} {value : α} (held : Inv state)
    (ran : call state = .ok value after) : Inv after := by
  have kept := keeps.run state held
  rwa [ran] at kept

/-- The property holds after a call that fails. -/
theorem of_error (keeps : Keeps Inv call) {state after : σ} {code : Int} (held : Inv state)
    (ran : call state = .error code after) : Inv after := by
  have kept := keeps.run state held
  rwa [ran] at kept

/-- Returning a value. -/
theorem ret (value : α) : Keeps Inv (Code.ret value) := ⟨fun _ held => held⟩

/-- Returning a value, under the name of the monad. -/
theorem pure (value : α) : Keeps Inv (Pure.pure value : Code σ α) := ⟨fun _ held => held⟩

/-- Returning an error code. -/
theorem fail (code : Int) : Keeps Inv (Code.fail code : Code σ α) := ⟨fun _ held => held⟩

/-- A call without a result. -/
theorem diverge : Keeps Inv (Code.diverge : Code σ α) := ⟨fun _ _ => trivial⟩

/-- Reading the state. -/
theorem gets (read : σ → α) : Keeps Inv (Code.gets read) := ⟨fun _ held => held⟩

/-- A change of the state that the invariant allows. -/
theorem update {change : σ → σ} (allowed : ∀ state, Inv state → Inv (change state)) :
    Keeps Inv (Code.update change) := ⟨allowed⟩

/-- Returning a value that may be missing. -/
theorem ofOption (value : Option α) : Keeps Inv (Code.ofOption value) := by
  cases value with
  | none => exact diverge
  | some value => exact ret value

/-- Leaving with a code. -/
theorem exitWith (code : Int) : Keeps Inv (Code.exitWith code) := by
  unfold Code.exitWith
  split
  · exact ret ()
  · exact fail code

/-- One call after another, the second started where the invariant holds. -/
theorem bind_of {next : α → Code σ β} (first : Keeps Inv call)
    (rest : ∀ state value middle, Inv state → call state = .ok value middle →
      match next value middle with
      | .ok _ after => Inv after
      | .error _ after => Inv after
      | .stuck => True) : Keeps Inv (call >>= next) := by
  constructor
  intro state held
  have begun := first.run state held
  cases ran : call state with
  | ok value middle =>
      rw [bind_ok ran]
      exact rest state value middle held ran
  | error code middle =>
      rw [ran] at begun
      rw [bind_error ran]
      exact begun
  | stuck =>
      rw [bind_stuck ran]
      trivial

/-- One call after the other. -/
theorem bind {next : α → Code σ β} (first : Keeps Inv call)
    (rest : ∀ value, Keeps Inv (next value)) :
    Keeps Inv (call >>= next) :=
  bind_of first fun _ value middle held ran => (rest value).run middle (first.of_ok held ran)

/-- Both branches of a condition. -/
theorem ite {condition : Prop} [Decidable condition] {other : Code σ α} (left : Keeps Inv call)
    (right : Keeps Inv other) : Keeps Inv (if condition then call else other) := by
  split
  · exact left
  · exact right

/-- A call with an error exit. -/
theorem onError {exit : Int → Code σ α} (first : Keeps Inv call)
    (leaves : ∀ code, Keeps Inv (exit code)) :
    Keeps Inv (call.onError exit) := by
  constructor
  intro state held
  have begun := first.run state held
  unfold Code.onError
  cases ran : call state with
  | ok value middle =>
      rw [ran] at begun
      exact begun
  | error code middle =>
      rw [ran] at begun
      exact (leaves code).run middle begun
  | stuck => trivial

/-- A call whose code is dropped. -/
theorem ignore {call : Code σ Unit} (first : Keeps Inv call) : Keeps Inv call.ignore := by
  constructor
  intro state held
  have begun := first.run state held
  unfold Code.ignore
  cases ran : call state with
  | ok value middle =>
      rw [ran] at begun
      exact begun
  | error code middle =>
      rw [ran] at begun
      exact begun
  | stuck => trivial

/-- A loop each of whose rounds keeps the property. -/
theorem whileLoop {test : σ → Bool} {body : Code σ Unit} (round : Keeps Inv body) (rounds : Nat) :
    Keeps Inv (Code.whileLoop test body rounds) := by
  induction rounds with
  | zero => exact diverge
  | succ rounds ih =>
      constructor
      intro state held
      unfold Code.whileLoop
      by_cases goes : test state = true
      · simp only [goes, if_true]
        exact (round.bind fun _ => ih).run state held
      · simp only [if_neg goes]
        exact held

/-- A loop with a counter each of whose rounds keeps the property. -/
theorem forLoop {test : Nat → σ → Bool} {body : Nat → Code σ Unit}
    (round : ∀ count, Keeps Inv (body count))
    (rounds : Nat) : ∀ count, Keeps Inv (Code.forLoop test body rounds count) := by
  induction rounds with
  | zero => exact fun _ => diverge
  | succ rounds ih =>
      intro count
      constructor
      intro state held
      unfold Code.forLoop
      by_cases goes : test count state = true
      · simp only [goes, if_true]
        exact ((round count).bind fun _ => ih (count + 1)).run state held
      · simp only [if_neg goes]
        exact held

end Keeps

end EverDb.Foundation.Code
