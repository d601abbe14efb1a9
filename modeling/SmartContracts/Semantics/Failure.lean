import Mathlib

namespace SmartContracts.Semantics

/-! # Programs that keep their state when they fail

`EStateM` models code that mutates a state and may stop early, leaving the
state as it was at that moment.  Each rule inverts one way of building a
program: how a composite can have succeeded, and how it can have failed.  A
program's specification is read off by rewriting with these rules from left to
right.
-/

universe u

variable {ε ε' σ α β : Type u} {before after : σ} {error : ε} {result : β}

theorem bind_ok {first : EStateM ε σ α} {next : α → EStateM ε σ β} :
    (first >>= next).run before = .ok result after ↔
      ∃ value middle, first.run before = .ok value middle ∧
        (next value).run middle = .ok result after := by
  rw [EStateM.run_bind]
  cases outcome : first.run before with
  | ok value middle => simp [and_assoc]
  | error failure stopped => simp

theorem bind_error {first : EStateM ε σ α} {next : α → EStateM ε σ β} :
    (first >>= next).run before = .error error after ↔
      first.run before = .error error after ∨
      ∃ value middle, first.run before = .ok value middle ∧
        (next value).run middle = .error error after := by
  rw [EStateM.run_bind]
  cases outcome : first.run before with
  | ok value middle => simp [and_assoc]
  | error failure stopped => simp

theorem pure_ok {value : β} :
    (pure value : EStateM ε σ β).run before = .ok result after ↔
      value = result ∧ before = after := by
  change EStateM.Result.ok value before = .ok result after ↔ _
  simp

theorem pure_error {value : β} :
    (pure value : EStateM ε σ β).run before = .error error after ↔ False := by
  change EStateM.Result.ok value before = .error error after ↔ _
  simp

theorem throw_ok {thrown : ε} :
    (throw thrown : EStateM ε σ β).run before = .ok result after ↔ False := by
  change EStateM.Result.error thrown before = .ok result after ↔ _
  simp

theorem throw_error {thrown : ε} :
    (throw thrown : EStateM ε σ β).run before = .error error after ↔
      thrown = error ∧ before = after := by
  change EStateM.Result.error thrown before = .error error after ↔ _
  simp

theorem adaptExcept_ok {program : EStateM ε σ β} {convert : ε → ε'} :
    (EStateM.adaptExcept convert program).run before = .ok result after ↔
      program.run before = .ok result after := by
  rw [EStateM.run_adaptExcept]
  cases outcome : program.run before <;> simp

/-! ## Failing without a trace

A program that only reads may fail anywhere; one that has begun to write must
not fail any more.  Then a failure leaves the state as it was, without anyone
restoring it.
-/

def Reads (program : EStateM ε σ α) : Prop :=
  ∀ before,
    (∀ result after, program.run before = .ok result after → after = before) ∧
    ∀ error after, program.run before = .error error after → after = before

def Unfailing (program : EStateM ε σ α) (before : σ) : Prop :=
  ∀ error after, program.run before ≠ .error error after

def Clean (program : EStateM ε σ α) (before : σ) : Prop :=
  ∀ error after, program.run before = .error error after → after = before

variable {first : EStateM ε σ α} {next : α → EStateM ε σ β}

theorem Unfailing.clean (unfailing : Unfailing first before) : Clean first before :=
  fun error after failed => absurd failed (unfailing error after)

theorem Reads.clean_bind (reads : Reads first) :
    Clean (first >>= next) before ↔
      ∀ value, first.run before = .ok value before → Clean (next value) before := by
  constructor
  · intro clean value returned error after failed
    exact clean error after (bind_error.mpr (.inr ⟨value, before, returned, failed⟩))
  · intro clean error after failed
    rcases bind_error.mp failed with early | ⟨value, middle, returned, late⟩
    · exact (reads before).2 error after early
    · cases (reads before).1 value middle returned
      exact clean value returned error after late

theorem unfailing_bind :
    Unfailing (first >>= next) before ↔
      Unfailing first before ∧
      ∀ value middle, first.run before = .ok value middle → Unfailing (next value) middle := by
  constructor
  · intro unfailing
    refine ⟨fun error after failed => ?_, fun value middle returned error after failed => ?_⟩
    · exact unfailing error after (bind_error.mpr (.inl failed))
    · exact unfailing error after (bind_error.mpr (.inr ⟨value, middle, returned, failed⟩))
  · intro parts error after failed
    rcases bind_error.mp failed with early | ⟨value, middle, returned, late⟩
    · exact parts.1 error after early
    · exact parts.2 value middle returned error after late

end SmartContracts.Semantics
