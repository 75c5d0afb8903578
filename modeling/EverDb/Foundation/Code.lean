/-!
# Computations with error codes

A call either returns a value, returns an error code, or never returns. The
state survives an error: what was written before the failing check stays
written. `Outcome.stuck` stands for a call without a result (an exhausted round
limit, an abort, a trap), so a specification that promises `Outcome.ok` also
promises termination.
-/

namespace EverDb.Foundation

/-- What one call does to a state. -/
inductive Outcome (σ α : Type) where
  | ok (value : α) (state : σ)
  | error (code : Int) (state : σ)
  | stuck

/-- Whether a call returned a value, and the value and state pass a test. -/
def Outcome.passes {σ α : Type} (test : α → σ → Bool) : Outcome σ α → Bool
  | .ok value state => test value state
  | _ => false

/-- A test that passed had a value to test. -/
theorem Outcome.of_passes {σ α : Type} {test : α → σ → Bool} {outcome : Outcome σ α}
    (passed : outcome.passes test = true) :
    ∃ value state, outcome = .ok value state ∧ test value state = true := by
  cases outcome with
  | ok value state => exact ⟨value, state, rfl, passed⟩
  | error code state => cases passed
  | stuck => cases passed

/-- Whether a call returned an error. -/
def Outcome.fails {σ α : Type} : Outcome σ α → Bool
  | .error _ _ => true
  | _ => false

/-- A call that fails has a code. -/
theorem Outcome.of_fails {σ α : Type} {outcome : Outcome σ α} (failed : outcome.fails = true) :
    ∃ code state, outcome = .error code state := by
  cases outcome with
  | ok value state => cases failed
  | error code state => exact ⟨code, state, rfl⟩
  | stuck => cases failed

/-- A call without a value and without an error does not return. -/
theorem Outcome.eq_stuck {σ α : Type} {outcome : Outcome σ α}
    (passed : outcome.passes (fun _ _ => true) = false) (failed : outcome.fails = false) :
    outcome = .stuck := by
  cases outcome with
  | ok value state => cases passed
  | error code state => cases failed
  | stuck => rfl

/-- A call that reads and writes a state of type `σ` and yields an `α`. -/
def Code (σ α : Type) : Type := σ → Outcome σ α

namespace Code

variable {σ α β ι : Type}

/-- Return a value and leave the state alone. -/
def ret (value : α) : Code σ α := fun state => .ok value state

/-- Run `first` and hand its value to `next`; an error skips `next`. -/
def andThen (first : Code σ α) (next : α → Code σ β) : Code σ β := fun state =>
  match first state with
  | .ok value after => next value after
  | .error code after => .error code after
  | .stuck => .stuck

instance : Monad (Code σ) where
  pure := ret
  bind := andThen

/-- Leave with an error code. -/
def fail (code : Int) : Code σ α := fun state => .error code state

/-- Never return. -/
def diverge : Code σ α := fun _ => .stuck

/-- Read the state. -/
def gets (read : σ → α) : Code σ α := fun state => .ok (read state) state

/-- Replace the state. -/
def update (change : σ → σ) : Code σ Unit := fun state => .ok () (change state)

/-- A partial pure step: no value means no result. -/
def ofOption : Option α → Code σ α
  | some value => ret value
  | none => diverge

/-- Return with a code that may be zero, as `goto err` does. -/
def exitWith (code : Int) : Code σ Unit :=
  if code = 0 then ret () else fail code

/-- The code a call returns, kept as a value: zero when it succeeds. -/
def attempt (call : Code σ Unit) : Code σ Int := fun state =>
  match call state with
  | .ok _ after => .ok 0 after
  | .error code after => .ok code after
  | .stuck => .stuck

/-- A call whose return code is dropped. -/
def ignore (call : Code σ Unit) : Code σ Unit := fun state =>
  match call state with
  | .ok _ after => .ok () after
  | .error _ after => .ok () after
  | .stuck => .stuck

/-- A call with an error exit: `exit` runs on the code of a failed call. -/
def onError (call : Code σ α) (exit : Int → Code σ α) : Code σ α := fun state =>
  match call state with
  | .ok value after => .ok value after
  | .error code after => exit code after
  | .stuck => .stuck

/-- Go on with the value of a call, or leave through `exit` with its error code. -/
def branch (call : Code σ α) (exit : Int → Code σ β) (next : α → Code σ β) :
    Code σ β := fun state =>
  match call state with
  | .ok value after => next value after
  | .error code after => exit code after
  | .stuck => .stuck

/-- A loop whose test only reads the state, for at most `rounds` rounds. -/
def whileLoop (test : σ → Bool) (body : Code σ Unit) : Nat → Code σ Unit
  | 0 => diverge
  | rounds + 1 => fun state =>
      if test state then (body >>= fun _ => whileLoop test body rounds) state
      else .ok () state

/-- A counting loop: `test` sees the counter and the state. -/
def forLoop (test : Nat → σ → Bool) (body : Nat → Code σ Unit) : Nat → Nat → Code σ Unit
  | 0, _ => diverge
  | rounds + 1, counter => fun state =>
      if test counter state then
        (body counter >>= fun _ => forLoop test body rounds (counter + 1)) state
      else .ok () state

section Running

variable {first : Code σ α} {next : α → Code σ β} {state after : σ} {value : α} {code : Int}

/-- A value, whatever the state. -/
@[simp] theorem pure_run (value : α) (state : σ) :
    (pure value : Code σ α) state = .ok value state :=
  rfl

/-- The same under the name that the models use. -/
@[simp] theorem ret_run (value : α) (state : σ) : (ret value : Code σ α) state = .ok value state :=
  rfl

/-- A failure leaves the state as it is. -/
@[simp] theorem fail_run (code : Int) (state : σ) :
    (fail code : Code σ α) state = .error code state := rfl

/-- A call without a result has none in any state. -/
@[simp] theorem diverge_run (state : σ) : (diverge : Code σ α) state = .stuck := rfl

/-- Reading the state does not change it. -/
@[simp] theorem gets_run (read : σ → α) (state : σ) : gets read state = .ok (read state) state :=
  rfl

/-- Changing the state always ends well. -/
@[simp] theorem update_run (change : σ → σ) (state : σ) :
    update change state = .ok () (change state) := rfl

/-- A value that is there is returned. -/
@[simp] theorem ofOption_some (value : α) (state : σ) :
    ofOption (some value) state = .ok value state := rfl

/-- A value that is missing is no result. -/
@[simp] theorem ofOption_none (state : σ) :
    ofOption (none : Option α) state = .stuck := rfl

/-- The code 0 is success. -/
@[simp] theorem exitWith_zero : exitWith (σ := σ) 0 = ret () := by simp [exitWith]

/-- A successful first call hands its value and state on. -/
theorem bind_ok (ran : first state = .ok value after) :
    (first >>= next) state = next value after := by
  change andThen first next state = _
  simp only [andThen, ran]

/-- A failed first call is the result. -/
theorem bind_error (ran : first state = .error code after) :
    (first >>= next) state = .error code after := by
  change andThen first next state = _
  simp only [andThen, ran]

/-- A call that never returns keeps what follows from running. -/
theorem bind_stuck (ran : first state = .stuck) : (first >>= next) state = .stuck := by
  change andThen first next state = _
  simp only [andThen, ran]

/-- A sequence depends on what its first part does. -/
theorem bind_congr {other : Code σ α} (same : first state = other state) :
    (first >>= next) state = (other >>= next) state := by
  change andThen first next state = andThen other next state
  simp only [andThen, same]

/-- What follows a value is applied to it. -/
@[simp] theorem ret_bind (value : α) : (ret value >>= next) state = next value state := rfl

/-- What follows a value, under the name of the monad. -/
@[simp] theorem pure_bind (value : α) :
    ((pure value : Code σ α) >>= next) state = next value state := rfl

/-- What follows a reading sees the state it read. -/
@[simp] theorem gets_bind (read : σ → α) : (gets read >>= next) state = next (read state) state :=
  rfl

/-- What follows a change starts from the changed state. -/
@[simp] theorem update_bind (change : σ → σ) (next : Unit → Code σ β) :
    (update change >>= next) state = next () (change state) := rfl

/-- Nothing follows a failure. -/
@[simp] theorem fail_bind : ((fail code : Code σ α) >>= next) state = .error code state := rfl

/-- Nothing follows a call without a result. -/
@[simp] theorem diverge_bind : ((diverge : Code σ α) >>= next) state = .stuck := rfl

/-- Calls in a row need no brackets. -/
@[simp] theorem bind_assoc {γ : Type} (last : β → Code σ γ) :
    (first >>= next) >>= last = first >>= fun value => next value >>= last := by
  funext start
  change andThen (andThen first next) last start
    = andThen first (fun value => andThen (next value) last) start
  simp only [andThen]
  cases first start <;> rfl

/-- What follows a value that is there. -/
@[simp] theorem ofOption_bind_some (value : α) :
    (ofOption (some value) >>= next) state = next value state := rfl

/-- From a successful sequence, the intermediate value and state. -/
theorem of_bind_ok {result : β} {last : σ} (ran : (first >>= next) state = .ok result last) :
    ∃ value middle, first state = .ok value middle ∧ next value middle = .ok result last := by
  cases begun : first state with
  | ok value middle => exact ⟨value, middle, rfl, by rwa [bind_ok begun] at ran⟩
  | error code middle => rw [bind_error begun] at ran; cases ran
  | stuck => rw [bind_stuck begun] at ran; cases ran

/-- A call that ends well has the code 0. -/
theorem attempt_ok {call : Code σ Unit} (ran : call state = .ok () after) :
    attempt call state = .ok 0 after := by simp only [attempt, ran]

/-- A call that fails has the code it fails with. -/
theorem attempt_error {call : Code σ Unit} (ran : call state = .error code after) :
    attempt call state = .ok code after := by simp only [attempt, ran]

/-- Dropping the code of a call that ends well. -/
theorem ignore_ok {call : Code σ Unit} (ran : call state = .ok () after) :
    ignore call state = .ok () after := by simp only [ignore, ran]

/-- The error exit is not taken after success. -/
theorem onError_ok {call : Code σ α} {exit : Int → Code σ α} (ran : call state = .ok value after) :
    onError call exit state = .ok value after := by simp only [onError, ran]

/-- The error exit starts from the state of the failure. -/
theorem onError_error {call : Code σ α} {exit : Int → Code σ α}
    (ran : call state = .error code after) : onError call exit state = exit code after := by
  simp only [onError, ran]

/-- After success the code goes on. -/
theorem branch_ok {call : Code σ α} {exit : Int → Code σ β} (ran : call state = .ok value after) :
    branch call exit next state = next value after := by simp only [branch, ran]

/-- After a failure the code leaves by the exit. -/
theorem branch_error {call : Code σ α} {exit : Int → Code σ β}
    (ran : call state = .error code after) : branch call exit next state = exit code after := by
  simp only [branch, ran]

end Running

section Loops

variable {test : σ → Bool} {body : Code σ Unit}

/-- A loop that counts an index down to zero ends, with `Inv 0` on leaving. -/
theorem whileLoop_ok (Inv : Nat → σ → Prop)
    (continues : ∀ left state, Inv (left + 1) state →
      test state = true ∧ ∃ after, body state = .ok () after ∧ Inv left after)
    (stops : ∀ state, Inv 0 state → test state = false)
    (left : Nat) : ∀ (rounds : Nat) (state : σ), left < rounds → Inv left state →
      ∃ after, whileLoop test body rounds state = .ok () after ∧ Inv 0 after := by
  induction left with
  | zero =>
      intro rounds state enough holds
      obtain ⟨rounds, rfl⟩ := Nat.exists_eq_succ_of_ne_zero (Nat.ne_of_gt enough)
      exact ⟨state, by simp [whileLoop, stops state holds], holds⟩
  | succ left ih =>
      intro rounds state enough holds
      obtain ⟨rounds, rfl⟩ := Nat.exists_eq_succ_of_ne_zero
        (Nat.ne_of_gt (Nat.lt_of_le_of_lt (Nat.zero_le _) enough))
      obtain ⟨goes, middle, ran, next⟩ := continues left state holds
      obtain ⟨after, finished, done⟩ := ih rounds middle (Nat.lt_of_succ_lt_succ enough) next
      refine ⟨after, ?_, done⟩
      simp only [whileLoop, goes, if_true]
      rw [bind_ok ran, finished]

/-- A loop that counts up to `goal` ends there. -/
theorem whileLoop_up (Inv : Nat → σ → Prop) (start : Nat) {goal rounds : Nat} {state : σ}
    (continues : ∀ count state, count < goal → Inv count state →
      test state = true ∧ ∃ after, body state = .ok () after ∧ Inv (count + 1) after)
    (stops : ∀ state, Inv goal state → test state = false)
    (ordered : start ≤ goal) (enough : goal - start < rounds) (holds : Inv start state) :
    ∃ after, whileLoop test body rounds state = .ok () after ∧ Inv goal after := by
  obtain ⟨after, ran, done⟩ := whileLoop_ok
    (fun left state => left ≤ goal ∧ Inv (goal - left) state)
    (fun left state ⟨bounded, held⟩ => by
      obtain ⟨goes, after, ran, next⟩ := continues (goal - (left + 1)) state (by omega) held
      have same : goal - (left + 1) + 1 = goal - left := by omega
      exact ⟨goes, after, ran, by omega, same ▸ next⟩)
    (fun state ⟨_, held⟩ => stops state held)
    (goal - start) rounds state enough
    ⟨Nat.sub_le _ _, by rwa [Nat.sub_sub_self ordered]⟩
  exact ⟨after, ran, done.2⟩

/-- A loop that counts down to `goal` ends there. -/
theorem whileLoop_down (Inv : Nat → σ → Prop) (start : Nat) {goal rounds : Nat} {state : σ}
    (continues : ∀ count state, goal ≤ count → count < start → Inv (count + 1) state →
      test state = true ∧ ∃ after, body state = .ok () after ∧ Inv count after)
    (stops : ∀ state, Inv goal state → test state = false)
    (ordered : goal ≤ start) (enough : start - goal < rounds) (holds : Inv start state) :
    ∃ after, whileLoop test body rounds state = .ok () after ∧ Inv goal after := by
  obtain ⟨after, ran, done⟩ := whileLoop_ok
    (fun left state => goal + left ≤ start ∧ Inv (goal + left) state)
    (fun left state ⟨bounded, held⟩ => by
      obtain ⟨goes, after, ran, next⟩ := continues (goal + left) state (by omega) (by omega) held
      exact ⟨goes, after, ran, by omega, next⟩)
    (fun state ⟨_, held⟩ => stops state held)
    (start - goal) rounds state enough
    ⟨by omega, by rwa [Nat.add_sub_cancel' ordered]⟩
  exact ⟨after, ran, done.2⟩

/-- A loop whose test fails at once does nothing. -/
theorem whileLoop_skip {rounds : Nat} {state : σ} (stops : test state = false) :
    whileLoop test body (rounds + 1) state = .ok () state := by
  simp [whileLoop, stops]

/-- One round of a loop. -/
theorem whileLoop_round {rounds : Nat} {state after : σ} (goes : test state = true)
    (ran : body state = .ok () after) :
    whileLoop test body (rounds + 1) state = whileLoop test body rounds after := by
  simp only [whileLoop, goes, if_true]
  rw [bind_ok ran]

/-- A round without a result. -/
theorem whileLoop_stuck {rounds : Nat} {state : σ} (goes : test state = true)
    (ran : body state = .stuck) :
    whileLoop test body (rounds + 1) state = .stuck := by
  simp only [whileLoop, goes, if_true]
  exact bind_stuck ran

/-- A round that fails ends the loop. -/
theorem whileLoop_error {rounds : Nat} {state after : σ} {code : Int} (goes : test state = true)
    (ran : body state = .error code after) :
    whileLoop test body (rounds + 1) state = .error code after := by
  simp only [whileLoop, goes, if_true]
  rw [bind_error ran]

/-- A loop that counts up to `goal` ends there, or a round fails. -/
theorem whileLoop_until (Inv : Nat → σ → Prop) (Failed : Int → σ → Prop) (start : Nat)
    {goal rounds : Nat} {state : σ}
    (continues : ∀ count state, count < goal → Inv count state → test state = true ∧
      ((∃ after, body state = .ok () after ∧ Inv (count + 1) after) ∨
        ∃ code after, body state = .error code after ∧ Failed code after))
    (stops : ∀ state, Inv goal state → test state = false)
    (ordered : start ≤ goal) (enough : goal - start < rounds) (holds : Inv start state) :
    (∃ after, whileLoop test body rounds state = .ok () after ∧ Inv goal after) ∨
      ∃ code after, whileLoop test body rounds state = .error code after ∧ Failed code after := by
  induction rounds generalizing start state with
  | zero => omega
  | succ rounds ih =>
      rcases Nat.lt_or_eq_of_le ordered with less | rfl
      · obtain ⟨goes, ⟨middle, ran, next⟩ | ⟨code, after, ran, failed⟩⟩ :=
          continues start state less holds
        · rw [whileLoop_round goes ran]
          exact ih (start + 1) less (by omega) next
        · exact .inr ⟨code, after, whileLoop_error goes ran, failed⟩
      · exact .inl ⟨state, whileLoop_skip (stops state holds), holds⟩

/-- A counting loop ends at `goal`. -/
theorem forLoop_up (test : Nat → σ → Bool) (body : Nat → Code σ Unit) (Inv : Nat → σ → Prop)
    (start goal rounds : Nat) (state : σ)
    (continues : ∀ count state, start ≤ count → count < goal → Inv count state →
      test count state = true ∧ ∃ after, body count state = .ok () after ∧ Inv (count + 1) after)
    (stops : ∀ state, Inv goal state → test goal state = false)
    (ordered : start ≤ goal) (enough : goal - start < rounds) (holds : Inv start state) :
    ∃ after, forLoop test body rounds start state = .ok () after ∧ Inv goal after := by
  induction rounds generalizing start state with
  | zero => omega
  | succ rounds ih =>
      rcases Nat.lt_or_eq_of_le ordered with less | rfl
      · obtain ⟨goes, middle, ran, next⟩ := continues start state (Nat.le_refl _) less holds
        obtain ⟨after, finished, done⟩ := ih (start + 1) middle
          (fun count state above => continues count state (by omega)) less (by omega) next
        refine ⟨after, ?_, done⟩
        simp only [forLoop, goes, if_true]
        rw [bind_ok ran, finished]
      · exact ⟨state, by simp [forLoop, stops state holds], holds⟩

/-- A counting loop ends at `goal`, unless a round has no result. -/
theorem forLoop_unless_stuck (test : Nat → σ → Bool) (body : Nat → Code σ Unit)
    (Inv : Nat → σ → Prop) (start goal rounds : Nat) (state : σ)
    (continues : ∀ count state, start ≤ count → count < goal → Inv count state →
      test count state = true ∧
      (body count state = .stuck ∨ ∃ after, body count state = .ok () after ∧
        Inv (count + 1) after))
    (stops : ∀ state, Inv goal state → test goal state = false)
    (ordered : start ≤ goal) (enough : goal - start < rounds) (holds : Inv start state) :
    forLoop test body rounds start state = .stuck ∨
      ∃ after, forLoop test body rounds start state = .ok () after ∧ Inv goal after := by
  induction rounds generalizing start state with
  | zero => omega
  | succ rounds ih =>
      rcases Nat.lt_or_eq_of_le ordered with less | rfl
      · obtain ⟨goes, stuck | ⟨middle, ran, next⟩⟩ :=
          continues start state (Nat.le_refl _) less holds
        · left
          simp only [forLoop, goes, if_true]
          exact bind_stuck stuck
        · have rest :=
            ih (start + 1) middle (fun count state above => continues count state (by omega)) less
            (by omega) next
          simp only [forLoop, goes, if_true]
          rw [bind_ok ran]
          exact rest
      · exact .inr ⟨state, by simp [forLoop, stops state holds], holds⟩

end Loops

/-- Every successful run of the first call is one of the second. -/
def SucceedsAs (first second : Code σ α) : Prop :=
  ∀ state value after, first state = .ok value after → second state = .ok value after

namespace SucceedsAs

/-- A call succeeds as itself. -/
theorem refl (call : Code σ α) : SucceedsAs call call := fun _ _ _ ran => ran

/-- One call after another. -/
theorem bind {first second : Code σ α} {next last : α → Code σ β} (start : SucceedsAs first second)
    (rest : ∀ value, SucceedsAs (next value) (last value)) :
    SucceedsAs (first >>= next) (second >>= last) := by
  intro state result after ran
  obtain ⟨value, middle, begun, ended⟩ := of_bind_ok ran
  rw [bind_ok (start state value middle begun)]
  exact rest value middle result after ended

/-- Both branches of a condition. -/
theorem ite {condition : Prop} [Decidable condition] {first second third fourth : Code σ α}
    (left : SucceedsAs first second) (right : SucceedsAs third fourth) :
    SucceedsAs (if condition then first else third) (if condition then second else fourth) := by
  split
  · exact left
  · exact right

/-- Loops whose rounds succeed alike. -/
theorem whileLoop {test : σ → Bool} {body other : Code σ Unit} (round : SucceedsAs body other)
    (rounds : Nat) :
    SucceedsAs (Code.whileLoop test body rounds) (Code.whileLoop test other rounds) := by
  induction rounds with
  | zero => exact refl _
  | succ rounds ih =>
      intro state value after ran
      by_cases goes : test state = true
      · simp only [Code.whileLoop, goes, if_true] at ran ⊢
        exact (round.bind fun _ => ih) state value after ran
      · simp only [Code.whileLoop, if_neg goes] at ran ⊢
        exact ran

end SucceedsAs

end Code

end EverDb.Foundation
