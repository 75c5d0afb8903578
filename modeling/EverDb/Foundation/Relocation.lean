import EverDb.Foundation.Code

/-!
# Stores that move

A store is reached through the base at which it is mapped. When a call moves the store,
what was computed from an earlier base no longer reaches it, and an access through it
has no result. `Mapped` makes the base part of the state, and `Follows` relates a call on
a mapped store to a call on the store alone: the two agree, or the mapped one went
through an earlier base.

The schedule of moves is a parameter of its own, whatever the calls do: a call that has
nothing to do may move the store as well. So `Relocatable` asks for one result under every
schedule, as a client has to that knows no more than that a call may move the store.
-/

namespace EverDb.Foundation

/-- A store, the base at which it is mapped, and which of the calls to come move it. -/
structure Mapped (σ : Type) where
  store : σ
  base : Nat
  moves : Nat → Bool

namespace Mapped

variable {σ : Type}

/-- No call moves the store. -/
def never : Nat → Bool := fun _ => false

/-- Every call moves the store. -/
def always : Nat → Bool := fun _ => true

/-- The calls after the next one. -/
def later (moves : Nat → Bool) : Nat → Bool := fun call => moves (call + 1)

/-- The base after the next call: another one when the call moves the store. -/
def nextBase (base : Nat) (moves : Nat → Bool) : Nat := if moves 0 then base + 1 else base

/-- A mapping that stays goes on staying. -/
@[simp] theorem later_never : later never = never := rfl

/-- A mapping that always moves goes on moving. -/
@[simp] theorem later_always : later always = always := rfl

/-- Where the mapping stays, so do the addresses. -/
@[simp] theorem nextBase_never (base : Nat) : nextBase base never = base := rfl

/-- Where it moves, the addresses change. -/
@[simp] theorem nextBase_always (base : Nat) : nextBase base always = base + 1 := rfl

/-- Places of the mapping are numbered upwards. -/
theorem le_nextBase (base : Nat) (moves : Nat → Bool) : base ≤ nextBase base moves := by
  unfold nextBase
  split <;> omega

end Mapped

open Mapped

namespace Outcome

variable {σ α : Type}

/-- A value is a result. -/
theorem ok_ne_stuck {value : α} {state : σ} : Outcome.ok value state ≠ .stuck := by
  intro same
  cases same

/-- An error code is a result. -/
theorem error_ne_stuck {code : Int} {state : σ} :
    (Outcome.error code state : Outcome σ α) ≠ .stuck := by
  intro same
  cases same

/-- The result on a mapped store. -/
def placed (base : Nat) (moves : Nat → Bool) : Outcome σ α → Outcome (Mapped σ) α
  | .ok value store => .ok value ⟨store, base, moves⟩
  | .error code store => .error code ⟨store, base, moves⟩
  | .stuck => .stuck

/-- The result without the place of the store. -/
def stored : Outcome (Mapped σ) α → Outcome σ α
  | .ok value mapped => .ok value mapped.store
  | .error code mapped => .error code mapped.store
  | .stuck => .stuck

/-- Placing an outcome keeps what is stored. -/
@[simp] theorem stored_placed (base : Nat) (moves : Nat → Bool) (outcome : Outcome σ α) :
    (outcome.placed base moves).stored = outcome := by
  cases outcome <;> rfl

end Outcome

namespace Code

variable {σ α β γ δ ι : Type}

/-- A call that may move the store. -/
def relocating (call : Code σ α) : Code (Mapped σ) α := fun mapped =>
  (call mapped.store).placed (nextBase mapped.base mapped.moves) (later mapped.moves)

/-- An access through what was computed from a base. -/
def access (base : Nat) (call : Code σ α) : Code (Mapped σ) α := fun mapped =>
  if base = mapped.base then (call mapped.store).placed mapped.base mapped.moves else .stuck

/-- The base at which the store is mapped. -/
def here : Code (Mapped σ) Nat := .gets Mapped.base

/-- A loop that carries a value from round to round. -/
def whileCarried (test : ι → Code σ Bool) (body : ι → Code σ ι) : Nat → ι → Code σ ι
  | 0, _ => diverge
  | rounds + 1, carried => do
      let goes ← test carried
      if goes then do
        let carried ← body carried
        whileCarried test body rounds carried
      else pure carried

/-- A call has the same result wherever the store is mapped, and whichever calls move it. -/
def Relocatable (call : Code (Mapped σ) α) (store : σ) : Prop :=
  ∀ base moves base', (call ⟨store, base, moves⟩).stored = (call ⟨store, base', never⟩).stored

/-! ## Runs -/

section Running

variable {next : α → Code (Mapped σ) β} {store after : σ} {base : Nat} {moves : Nat → Bool}
  {value : α} {code : Int}

/-- The place of the mapping, read before the rest of a call. -/
theorem here_bind {next : Nat → Code (Mapped σ) β} :
    (here >>= next) ⟨store, base, moves⟩ = next base ⟨store, base, moves⟩ := rfl

/-- An access through a pointer computed now runs as without the mapping. -/
theorem access_here (call : Code σ α) (mapped : Mapped σ) :
    access mapped.base call mapped = (call mapped.store).placed mapped.base mapped.moves :=
  if_pos rfl

/-- An access through an earlier base has no result. -/
theorem access_stale {mapped : Mapped σ} (stale : base ≠ mapped.base) (call : Code σ α) :
    access base call mapped = .stuck := if_neg stale

/-- An access through a good pointer. -/
theorem access_ok {call : Code σ α} (ran : call store = .ok value after) :
    access base call ⟨store, base, moves⟩ = .ok value ⟨after, base, moves⟩ := by
  rw [show access base call ⟨store, base, moves⟩ =
    _ from access_here call ⟨store, base, moves⟩, ran]
  rfl

/-- An access through a good pointer, before the rest of a call. -/
theorem access_bind {call : Code σ α} (ran : call store = .ok value after) :
    (access base call >>= next) ⟨store, base, moves⟩ = next value ⟨after, base, moves⟩ :=
  bind_ok (access_ok ran)

/-- A call that can move the mapping leaves it at the next place when it succeeds. -/
theorem relocating_ok {call : Code σ α} (ran : call store = .ok value after) :
    relocating call ⟨store, base, moves⟩ = .ok value ⟨after, nextBase base moves, later moves⟩ := by
  unfold relocating
  rw [ran]
  rfl

/-- A call that can move the mapping leaves it at the next place when it fails. -/
theorem relocating_error {call : Code σ α} (ran : call store = .error code after) :
    relocating call ⟨store, base, moves⟩ =
      .error code ⟨after, nextBase base moves, later moves⟩ := by
  unfold relocating
  rw [ran]
  rfl

end Running

/-- A loop, one round unrolled. -/
theorem whileLoop_succ_eq (test : σ → Bool) (body : Code σ Unit) (rounds : Nat) :
    whileLoop test body (rounds + 1) =
    gets test >>= fun goes => if goes then body >>= fun _ =>
      whileLoop test body rounds else pure () := by
  funext store
  rw [gets_bind]
  simp only [whileLoop]
  split <;> rfl

/-! ## The relation -/

/-- What is known about the base: which bases and moves the store may have, and from which
bases an access is allowed. -/
structure Mode where
  Admits : Nat → (Nat → Bool) → Prop
  Valid : Nat → Prop
  /-- An access from an allowed base may still be from an earlier one. -/
  Traps : Prop
  call : ∀ {base moves}, Admits base moves → Admits (nextBase base moves) (later moves)
  here : ∀ {base moves}, Admits base moves → Valid base
  access : ∀ {base now moves}, Valid base → Admits now moves → base = now ∨ Traps

namespace Mode

/-- The store stays at a base. -/
def still (base : Nat) : Mode where
  Admits now moves := now = base ∧ moves = never
  Valid now := now = base
  Traps := False
  call := by
    rintro _ _ ⟨rfl, rfl⟩
    exact ⟨rfl, rfl⟩
  here := fun admitted => admitted.1
  access := by
    rintro _ _ _ rfl ⟨rfl, rfl⟩
    exact .inl rfl

/-- The store may move, as a schedule says. -/
def moving (schedule : (Nat → Bool) → Prop)
    (closed : ∀ {moves}, schedule moves → schedule (later moves)) : Mode where
  Admits _ moves := schedule moves
  Valid _ := True
  Traps := True
  call := closed
  here := fun _ => trivial
  access := fun _ _ => .inr trivial

/-- Any call may move the store. -/
def anywhere : Mode := moving (fun _ => True) id

/-- Every call moves the store. -/
def restless : Mode := moving (· = always) fun same => congrArg later same

end Mode

variable {mode : Mode}

/-- A result on a mapped store agrees with one on the store, or an access trapped. -/
inductive Matches (mode : Mode) (related : α → β → Prop) (start : Nat) : Outcome (Mapped σ) α →
    Outcome σ β → Prop
  | ok {left : α} {right : β} {store : σ} {base : Nat} {moves : Nat →
      Bool} (values : related left right)
      (admitted : mode.Admits base moves) (onward : start ≤ base) :
      Matches mode related start (.ok left ⟨store, base, moves⟩) (.ok right store)
  | error {code : Int} {store : σ} {base : Nat} {moves : Nat →
      Bool} (admitted : mode.Admits base moves)
      (onward : start ≤ base) :
      Matches mode related start (.error code ⟨store, base, moves⟩) (.error code store)
  | stuck : Matches mode related start .stuck .stuck
  | trapped {right : Outcome σ β} (traps : mode.Traps) : Matches mode related start .stuck right

/-- Wherever the store is, a call on the mapped store agrees with one on the store. -/
def Follows (mode : Mode) (related : α → β → Prop) (left : Code (Mapped σ) α)
    (right : Code σ β) : Prop :=
  ∀ store base moves, mode.Admits base moves →
  Matches mode related base (left ⟨store, base, moves⟩) (right store)

/-- Matching from a later place on is the stronger statement. -/
theorem Matches.weaken {related : α → β → Prop} {start earlier : Nat} {left : Outcome (Mapped σ) α}
    {right : Outcome σ β} (sooner : earlier ≤ start)
    (same : Matches mode related start left right) :
    Matches mode related earlier left right := by
  cases same with
  | ok values admitted onward => exact .ok values admitted (by omega)
  | error admitted onward => exact .error admitted (by omega)
  | stuck => exact .stuck
  | trapped traps => exact .trapped traps

namespace Follows

variable {related : α → β → Prop} {left : Code (Mapped σ) α} {right : Code σ β}

/-- Returning related values. -/
theorem ret {leftValue : α} {rightValue : β} (values : related leftValue rightValue) :
    Follows (σ := σ) mode related (Pure.pure leftValue) (Pure.pure rightValue) :=
  fun _ _ _ admitted => .ok values admitted (Nat.le_refl _)

/-- The same error on both sides. -/
theorem fail (code : Int) : Follows (σ := σ) mode related (Code.fail code) (Code.fail code) :=
  fun _ _ _ admitted => .error admitted (Nat.le_refl _)

/-- No result on either side. -/
theorem diverge : Follows (σ := σ) mode related Code.diverge Code.diverge := fun _ _ _ _ => .stuck

/-- Calls that follow each other, one after the other. -/
theorem bind {further : γ → δ → Prop} {next : α → Code (Mapped σ) γ} {next' : β → Code σ δ}
    (first : Follows mode related left right)
    (rest : ∀ leftValue rightValue, related leftValue rightValue →
      Follows mode further (next leftValue) (next' rightValue)) :
    Follows mode further (left >>= next) (right >>= next') := by
  intro store base moves admitted
  have begun := first store base moves admitted
  revert begun
  generalize leftRan : left ⟨store, base, moves⟩ = leftResult
  generalize rightRan : right store = rightResult
  intro begun
  cases begun with
  | ok values admitted onward =>
      rw [bind_ok leftRan, bind_ok rightRan]
      exact (rest _ _ values _ _ _ admitted).weaken onward
  | error admitted onward =>
      rw [bind_error leftRan, bind_error rightRan]
      exact .error admitted onward
  | stuck =>
      rw [bind_stuck leftRan, bind_stuck rightRan]
      exact .stuck
  | trapped traps =>
      rw [bind_stuck leftRan]
      exact .trapped traps

/-- A base that is taken is one from which accesses are allowed. -/
theorem here_bind {next : Nat → Code (Mapped σ) α}
    (rest : ∀ base, mode.Valid base → Follows mode related (next base) right) :
    Follows mode related (Code.here >>= next) right :=
  fun store base moves admitted => rest base (mode.here admitted) store base moves admitted

/-- Accesses through a pointer that is still good. -/
theorem access {base : Nat} (valid : mode.Valid base) (call : Code σ α) :
    Follows mode Eq (Code.access base call) call := by
  intro store now moves admitted
  by_cases same : base = now
  · subst same
    rw [show Code.access base call ⟨store, base, moves⟩ =
      _ from access_here call ⟨store, base, moves⟩]
    cases call store with
    | ok value after => exact .ok rfl admitted (Nat.le_refl _)
    | error code after => exact .error admitted (Nat.le_refl _)
    | stuck => exact .stuck
  · rw [access_stale same call]
    exact .trapped ((mode.access valid admitted).resolve_left same)

/-- Calls that can move the mapping. -/
theorem relocating (call : Code σ α) : Follows mode Eq (Code.relocating call) call := by
  intro store base moves admitted
  have later := mode.call admitted
  have onward := le_nextBase base moves
  unfold Code.relocating
  cases call store with
  | ok value after => exact .ok rfl later onward
  | error code after => exact .error later onward
  | stuck => exact .stuck

/-- A call that may move the store, and what follows it. -/
theorem relocating_bind {further : γ → δ → Prop} {call : Code σ α} {next : α → Code (Mapped σ) γ}
    (next' : α → Code σ δ) {store : σ} {base : Nat} {moves : Nat → Bool}
    (admitted : mode.Admits base moves)
    (rest : ∀ value, Follows mode further (next value) (next' value)) :
    Matches mode further (nextBase base moves)
      ((Code.relocating call >>= next) ⟨store, base, moves⟩) ((call >>= next') store) := by
  have later := mode.call admitted
  cases ran : call store with
  | ok value after =>
      rw [bind_ok (relocating_ok ran), bind_ok ran]
      exact rest value _ _ _ later
  | error code after =>
      rw [bind_error (relocating_error ran), bind_error ran]
      exact .error later (Nat.le_refl _)
  | stuck =>
      have stuck : Code.relocating call ⟨store, base, moves⟩ = .stuck := by
        unfold Code.relocating
        rw [ran]
        rfl
      rw [bind_stuck stuck, bind_stuck ran]
      exact .stuck

/-- A call whose result is exchanged for a value that takes no call to find. -/
theorem exchange {next : α → Code (Mapped σ) γ} {further : γ → β → Prop}
    (same : Follows mode related left right)
    (found : ∀ {leftValue rightValue store base moves}, related leftValue rightValue →
      mode.Admits base moves →
      ∃ value, next leftValue ⟨store, base, moves⟩ = .ok value ⟨store, base, moves⟩ ∧
        further value rightValue) :
    Follows mode further (left >>= next) right := by
  intro store base moves admitted
  have ran := same store base moves admitted
  revert ran
  generalize leftRan : left ⟨store, base, moves⟩ = leftResult
  generalize right store = rightResult
  intro ran
  cases ran with
  | ok values admitted onward =>
      obtain ⟨value, ended, values⟩ := found values admitted
      rw [bind_ok leftRan, ended]
      exact .ok values admitted onward
  | error admitted onward =>
      rw [bind_error leftRan]
      exact .error admitted onward
  | stuck =>
      rw [bind_stuck leftRan]
      exact .stuck
  | trapped traps =>
      rw [bind_stuck leftRan]
      exact .trapped traps

/-- A call whose result is dropped for another value. -/
theorem hand {related : α → Unit → Prop} {right : Code σ Unit} {value : γ}
    {further : γ → Unit → Prop}
    (same : Follows mode related left right) (values : ∀ result, further value result) :
    Follows mode further (left >>= fun _ => Pure.pure value) right :=
  same.exchange fun _ _ => ⟨value, rfl, values _⟩

/-- The base is taken anew after a call. -/
theorem then_here {right : Code σ Unit} {related : α → Unit → Prop}
    (same : Follows mode related left right) :
    Follows mode (fun base _ => mode.Valid base) (left >>= fun _ => Code.here) right :=
  same.exchange fun _ admitted => ⟨_, rfl, mode.here admitted⟩

/-- Both branches of a condition. -/
theorem ite {condition : Prop} [Decidable condition] {left' : Code (Mapped σ) α} {right' : Code σ β}
    (holds : Follows mode related left right) (fails : Follows mode related left' right') :
    Follows mode related (if condition then left
      else left') (if condition then right else right') := by
  split
  · exact holds
  · exact fails

/-- The code of a call in place of its failure. -/
theorem attempt {left : Code (Mapped σ) Unit} {right : Code σ Unit}
    (same : Follows mode Eq left right) :
    Follows mode Eq left.attempt right.attempt := by
  intro store base moves admitted
  have ran := same store base moves admitted
  unfold Code.attempt
  revert ran
  generalize left ⟨store, base, moves⟩ = leftResult
  generalize right store = rightResult
  intro ran
  cases ran with
  | ok values admitted onward => exact .ok rfl admitted onward
  | error admitted onward => exact .ok rfl admitted onward
  | stuck => exact .stuck
  | trapped traps => exact .trapped traps

/-- A loop that carries a base from which accesses are allowed. -/
theorem whileCarried {carries : ι → Prop} {test : ι → Code (Mapped σ) Bool}
    {body : ι → Code (Mapped σ) ι} {test' : σ → Bool} {body' : Code σ Unit}
    (tests : ∀ carried, carries carried → Follows mode Eq (test carried) (gets test'))
    (round : ∀ carried, carries carried →
      Follows mode (fun carried _ => carries carried) (body carried) body')
    (rounds : Nat) : ∀ carried, carries carried →
      Follows mode (fun carried _ => carries carried) (Code.whileCarried test body rounds carried)
        (whileLoop test' body' rounds) := by
  induction rounds with
  | zero => exact fun _ _ => diverge
  | succ rounds ih =>
      intro carried held
      rw [whileLoop_succ_eq]
      unfold Code.whileCarried
      refine (tests carried held).bind fun goes _ same => ?_
      subst same
      refine ite ?_ (ret held)
      exact (round carried held).bind fun carried _ held => ih carried held

/-- Where the store stays, the mapped call does what the call does. -/
theorem still_run {left : Code (Mapped σ) α} {right : Code σ α} {base : Nat}
    (same : Follows (.still base) Eq left right) (store : σ) :
    left ⟨store, base, never⟩ = (right store).placed base never := by
  have ran := same store base never ⟨rfl, rfl⟩
  revert ran
  generalize left ⟨store, base, never⟩ = leftResult
  generalize right store = rightResult
  intro ran
  cases ran with
  | ok values admitted _ =>
      obtain ⟨rfl, rfl⟩ := admitted
      subst values
      rfl
  | error admitted _ =>
      obtain ⟨rfl, rfl⟩ := admitted
      rfl
  | stuck => rfl
  | trapped traps => exact traps.elim

/-- Where every call moves the store, the mapped call traps or ends as the call does. -/
theorem restless_ok {left : Code (Mapped σ) α} {right : Code σ α}
    (same : Follows .restless Eq left right)
    {store after : σ} {value : α} (ran : right store = .ok value after) (base : Nat) :
    left ⟨store, base, always⟩ = .stuck ∨
      ∃ now, base ≤ now ∧ left ⟨store, base, always⟩ = .ok value ⟨after, now, always⟩ := by
  have matching := same store base always rfl
  rw [ran] at matching
  revert matching
  generalize left ⟨store, base, always⟩ = result
  intro matching
  cases matching with
  | ok values admitted onward =>
      cases values
      cases admitted
      exact .inr ⟨_, onward, rfl⟩
  | trapped _ => exact .inl rfl

/-- A call that traps nowhere does what the call on the store does. -/
theorem stored_eq {left : Code (Mapped σ) α} {right : Code σ α}
    (same : Follows .anywhere Eq left right)
    (mapped : Mapped σ) (runs : left mapped ≠ .stuck) :
    (left mapped).stored = right mapped.store := by
  have ran := same mapped.store mapped.base mapped.moves trivial
  revert ran runs
  generalize left ⟨mapped.store, mapped.base, mapped.moves⟩ = leftResult
  generalize right mapped.store = rightResult
  intro runs ran
  cases ran with
  | ok values _ _ =>
      subst values
      rfl
  | error _ _ => rfl
  | stuck => rfl
  | trapped _ => exact absurd rfl runs

/-- A call that has a result is relocatable exactly when no move traps it. -/
theorem relocatable_iff {left : Code (Mapped σ) α} {right : Code σ α}
    (still : ∀ base, Follows (.still base) Eq left right) (store : σ) : Relocatable left store ↔
    ∀ base moves, (left ⟨store, base, moves⟩).stored = right store := by
  constructor
  · intro same base moves
    rw [same base moves base, (still base).still_run, Outcome.stored_placed]
  · intro same base moves base'
    rw [same, same]

end Follows

/-! ## Calls that recompute what they keep -/

/-- A result on a mapped store agrees with one on the store, and its value is related to
the base that the store has now. -/
inductive Agrees (related : Nat → α → β → Prop) : Outcome (Mapped σ) α → Outcome σ β → Prop
  | ok {left : α} {right : β} {store : σ} {base : Nat} {moves : Nat →
      Bool} (values : related base left right) :
      Agrees related (.ok left ⟨store, base, moves⟩) (.ok right store)
  | error {code : Int} {store : σ} {base : Nat} {moves : Nat → Bool} :
      Agrees related (.error code ⟨store, base, moves⟩) (.error code store)
  | stuck : Agrees related .stuck .stuck

/-- A weaker relation between the values. -/
theorem Agrees.imp {related further : Nat → α → β → Prop} {left : Outcome (Mapped σ) α}
    {right : Outcome σ β} (agrees : Agrees related left right)
    (implies : ∀ {base leftValue rightValue}, related base leftValue rightValue →
      further base leftValue rightValue) :
    Agrees further left right := by
  cases agrees with
  | ok values => exact .ok (implies values)
  | error => exact .error
  | stuck => exact .stuck

/-- Outcomes that agree on equal values store the same. -/
theorem Agrees.stored_eq {left : Outcome (Mapped σ) α} {right : Outcome σ α}
    (agrees : Agrees (fun _ left right => left = right) left right) : left.stored = right := by
  cases agrees with
  | ok values =>
      subst values
      rfl
  | error => rfl
  | stuck => rfl

/-- From a base, a call on the mapped store agrees with one on the store, whichever calls
move it. -/
def Renews (related : Nat → α → β → Prop) (base : Nat) (left : Code (Mapped σ) α)
    (right : Code σ β) : Prop :=
  ∀ store moves, Agrees related (left ⟨store, base, moves⟩) (right store)

namespace Renews

variable {related : Nat → α → β → Prop} {further : Nat → γ → δ → Prop} {base : Nat}
  {left : Code (Mapped σ) α}
  {right : Code σ β}

/-- Returning values that are related at the present place. -/
theorem ret {leftValue : α} {rightValue : β} (values : related base leftValue rightValue) :
    Renews (σ := σ) related base (Pure.pure leftValue) (Pure.pure rightValue) :=
  fun _ _ => .ok values

/-- The same error, wherever the mapping lies. -/
theorem fail (code : Int) : Renews (σ := σ) related base (Code.fail code) (Code.fail code) :=
  fun _ _ => .error

/-- Calls one after the other; the second starts where the first has left the mapping. -/
theorem bind {next : α → Code (Mapped σ) γ} {next' : β → Code σ δ}
    (first : Renews related base left right)
    (rest : ∀ now leftValue rightValue, related now leftValue rightValue →
      Renews further now (next leftValue) (next' rightValue)) :
    Renews further base (left >>= next) (right >>= next') := by
  intro store moves
  have begun := first store moves
  revert begun
  generalize leftRan : left ⟨store, base, moves⟩ = leftResult
  generalize rightRan : right store = rightResult
  intro begun
  cases begun with
  | ok values =>
      rw [bind_ok leftRan, bind_ok rightRan]
      exact rest _ _ _ values _ _
  | error =>
      rw [bind_error leftRan, bind_error rightRan]
      exact .error
  | stuck =>
      rw [bind_stuck leftRan, bind_stuck rightRan]
      exact .stuck

/-- Pointers computed here are good for what follows. -/
theorem here_bind {next : Nat → Code (Mapped σ) α} (rest : Renews related base (next base) right) :
    Renews related base (Code.here >>= next) right := fun store moves => rest store moves

/-- An access from the base that was taken last. -/
theorem access (call : Code σ α) :
    Renews (fun now left right => now = base ∧ left = right) base (Code.access base call) call := by
  intro store moves
  rw [show Code.access base call ⟨store, base, moves⟩ =
    _ from access_here call ⟨store, base, moves⟩]
  cases call store with
  | ok value after => exact .ok ⟨rfl, rfl⟩
  | error code after => exact .error
  | stuck => exact .stuck

/-- The last access of a call. -/
theorem access_last (call : Code σ α) :
    Renews (fun _ left right => left = right) base (Code.access base call) call :=
  fun store moves => (access call store moves).imp fun values => values.2

/-- An access through a good pointer keeps the place of the mapping. -/
theorem access_bind {call : Code σ α} {next : α → Code (Mapped σ) γ} {next' : α → Code σ δ}
    (rest : ∀ value, Renews further base (next value) (next' value)) :
    Renews further base (Code.access base call >>= next) (call >>= next') := by
  refine (access call).bind ?_
  rintro _ value _ ⟨rfl, rfl⟩
  exact rest value

/-- A call whose result is dropped for another value. -/
theorem hand {right : Code σ Unit} {related : Nat → α → Unit → Prop} {value : γ}
    {further : Nat → γ → Unit → Prop}
    (same : Renews related base left right)
    (values : ∀ now result, related now result () → further now value ()) :
    Renews further base (left >>= fun _ => Pure.pure value) right := by
  intro store moves
  have ran := same store moves
  revert ran
  generalize leftRan : left ⟨store, base, moves⟩ = leftResult
  generalize right store = rightResult
  intro ran
  cases ran with
  | ok same =>
      rw [bind_ok leftRan]
      exact .ok (values _ _ same)
  | error =>
      rw [bind_error leftRan]
      exact .error
  | stuck =>
      rw [bind_stuck leftRan]
      exact .stuck

/-- The last access of a call whose value is another one. -/
theorem access_hand {call : Code σ Unit} {value : γ} {further : Nat → γ → Unit → Prop}
    (values : further base value ()) :
    Renews further base (Code.access base call >>= fun _ => Pure.pure value) call := by
  refine (access call).hand ?_
  rintro _ _ ⟨rfl, _⟩
  exact values

/-- A call that can move the mapping, with the place behind it forgotten. -/
theorem relocating (call : Code σ α) :
    Renews (fun _ left right => left = right) base (Code.relocating call) call := by
  intro store moves
  unfold Code.relocating
  cases call store with
  | ok value after => exact .ok rfl
  | error code after => exact .error
  | stuck => exact .stuck

/-- Behind a call that can move the mapping, pointers are computed anew. -/
theorem relocating_bind {call : Code σ α} {next : α → Code (Mapped σ) γ} {next' : α → Code σ δ}
    (rest : ∀ now value, Renews further now (next value) (next' value)) :
    Renews further base (Code.relocating call >>= next) (call >>= next') := by
  refine (relocating call).bind ?_
  rintro now value _ rfl
  exact rest now value

/-- Both branches, at the same place. -/
theorem ite {condition : Prop} [Decidable condition] {left' : Code (Mapped σ) α} {right' : Code σ β}
    (holds : Renews related base left right) (fails : Renews related base left' right') :
    Renews related base (if condition then left
      else left') (if condition then right else right') := by
  split
  · exact holds
  · exact fails

/-- A loop that carries the base from which it tests. -/
theorem whileCarried {test : Nat → Code (Mapped σ) Bool} {body : Nat → Code (Mapped σ) Nat}
    {test' : σ → Bool} {body' : Code σ Unit}
    (tests : ∀ base, Renews (fun now left right => now = base ∧ left = right) base
      (test base) (gets test'))
    (round : ∀ base, Renews (fun now carried _ => carried = now) base (body base) body')
    (rounds : Nat) : ∀ base,
      Renews (fun now carried _ => carried = now) base (Code.whileCarried test body rounds base)
        (whileLoop test' body' rounds) := by
  induction rounds with
  | zero => exact fun _ _ _ => .stuck
  | succ rounds ih =>
      intro base
      rw [whileLoop_succ_eq]
      unfold Code.whileCarried
      refine (tests base).bind ?_
      rintro _ goes _ ⟨rfl, rfl⟩
      refine ite ?_ (ret rfl)
      refine (round _).bind ?_
      rintro now carried _ rfl
      exact ih carried

/-- A call that recomputes what it keeps is relocatable. -/
theorem relocatable {left : Code (Mapped σ) α} {right : Code σ α}
    (renews : ∀ base, Renews (fun _ left right => left = right) base left right) (store : σ) :
    Relocatable left store := by
  intro base moves base'
  rw [(renews base store moves).stored_eq, (renews base' store never).stored_eq]

end Renews

end Code

end EverDb.Foundation
