import SmartContracts.Semantics.Failure

namespace SmartContracts.Semantics

/-! # Programs that stand for one another

Two programs over different states agree where they take related states to the
same outcome: both return, or both fail with the same error, and they leave related
states behind.  The rules follow the way the programs are built.
-/

universe u

variable {ε σ τ α β γ δ : Type u}

section

variable (related : σ → τ → Prop) (same : α → β → Prop)

def Agree : EStateM.Result ε σ α → EStateM.Result ε τ β → Prop
  | .ok value after, .ok other later => same value other ∧ related after later
  | .error error after, .error other later => error = other ∧ related after later
  | .ok _ _, .error _ _ | .error _ _, .ok _ _ => False

def Simulates (low : EStateM ε σ α) (high : EStateM ε τ β) : Prop :=
  ∀ before other, related before other → Agree related same (low.run before) (high.run other)

end

namespace Simulates

variable {related : σ → τ → Prop} {same : α → β → Prop} {sameNext : γ → δ → Prop}
  {low : EStateM ε σ α} {high : EStateM ε τ β} {lowNext : α → EStateM ε σ γ}
  {highNext : β → EStateM ε τ δ}

theorem pure {value : α} {other : β} (holds : same value other) :
    Simulates related same (Pure.pure value : EStateM ε σ α) (Pure.pure other : EStateM ε τ β) :=
  fun _ _ before => ⟨holds, before⟩

theorem throw (error : ε) :
    Simulates related same (MonadExcept.throw error : EStateM ε σ α)
      (MonadExcept.throw error : EStateM ε τ β) :=
  fun _ _ before => ⟨rfl, before⟩

theorem bind (first : Simulates related same low high)
    (next : ∀ value other, same value other →
      Simulates related sameNext (lowNext value) (highNext other)) :
    Simulates related sameNext (low >>= lowNext) (high >>= highNext) := by
  intro before other start
  have agree := first before other start
  rw [EStateM.run_bind, EStateM.run_bind]
  cases outcome : low.run before with
  | ok value after =>
      rw [outcome] at agree
      cases outcome' : high.run other with
      | ok value' after' =>
          rw [outcome'] at agree
          exact next value value' agree.1 after after' agree.2
      | error error' after' =>
          rw [outcome'] at agree
          exact agree.elim
  | error error after =>
      rw [outcome] at agree
      cases outcome' : high.run other with
      | ok value' after' =>
          rw [outcome'] at agree
          exact agree.elim
      | error error' after' =>
          rw [outcome'] at agree
          exact agree

theorem ite {taken takenHigh : Prop} [decidable : Decidable taken]
    [decidableHigh : Decidable takenHigh] (agree : taken ↔ takenHigh)
    {other : EStateM ε σ α} {otherHigh : EStateM ε τ β}
    (yes : taken → Simulates related same low high)
    (no : ¬ taken → Simulates related same other otherHigh) :
    Simulates related same (if taken then low else other)
      (if takenHigh then high else otherHigh) := by
  by_cases takes : taken
  · rw [if_pos takes, if_pos (agree.mp takes)]
    exact yes takes
  · rw [if_neg takes, if_neg fun takesHigh => takes (agree.mpr takesHigh)]
    exact no takes

end Simulates

end SmartContracts.Semantics
