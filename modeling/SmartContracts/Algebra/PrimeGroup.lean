import Mathlib

namespace SmartContracts.Algebra

/-! # Groups of prime order

A group of prime order is a one-dimensional space over its scalars.  Every
element has one discrete logarithm below the order, and counting up from zero
in steps of the generator finds it.  The second half is the cancellation on
which self-tallying rests: each member's key is blinded by the sum of the keys
before it minus the sum of the keys after it.
-/

variable {q : ℕ} {G : Type*} [AddCommGroup G] [Module (ZMod q) G] {generator target point : G}

structure Generates (q : ℕ) [Module (ZMod q) G] (generator : G) : Prop where
  ne_zero : generator ≠ 0
  spans : ∀ point : G, ∃ k : ZMod q, k • generator = point

namespace Generates

variable [Fact q.Prime]

theorem smul_inj (generates : Generates q generator) {k l : ZMod q} :
    k • generator = l • generator ↔ k = l := by
  constructor
  · intro same
    have zero : (k - l) • generator = 0 := by rw [sub_smul, same, sub_self]
    exact sub_eq_zero.mp ((smul_eq_zero.mp zero).resolve_right generates.ne_zero)
  · exact congrArg (· • generator)

theorem smul_eq_zero_iff (generates : Generates q generator) {k : ZMod q} :
    k • generator = 0 ↔ k = 0 := by
  rw [← zero_smul (ZMod q) generator, generates.smul_inj]

theorem nsmul_inj (generates : Generates q generator) {m n : ℕ} (below : m < q)
    (bounded : n < q) : m • generator = n • generator ↔ m = n := by
  rw [← Nat.cast_smul_eq_nsmul (ZMod q), ← Nat.cast_smul_eq_nsmul (ZMod q), generates.smul_inj,
    ZMod.natCast_eq_natCast_iff', Nat.mod_eq_of_lt below, Nat.mod_eq_of_lt bounded]

theorem exists_log (generates : Generates q generator) (point : G) :
    ∃ n < q, n • generator = point := by
  obtain ⟨k, rfl⟩ := generates.spans point
  refine ⟨k.val, k.val_lt, ?_⟩
  rw [← Nat.cast_smul_eq_nsmul (ZMod q), ZMod.natCast_zmod_val]

end Generates

/-! ## Counting up to a point -/

theorem step_shift (m : ℕ) :
    point + (m + 1) • generator = point + generator + m • generator := by
  rw [succ_nsmul', add_assoc]

theorem first_arrival_here {fuel n : ℕ} (arrived : point = target) :
    0 = n ↔ n ≤ fuel ∧ point + n • generator = target ∧
      ∀ m < n, point + m • generator ≠ target := by
  constructor
  · intro zero
    subst zero
    simpa using arrived
  · intro ⟨_, _, first⟩
    by_contra positive
    exact first 0 (by omega) (by simpa using arrived)

variable [DecidableEq G]

/-- The number of steps from the current point to the target, when the fuel
allows for that many. -/
def stepsTo (generator target : G) : ℕ → G → Option ℕ
  | fuel, current =>
      if current = target then some 0
      else match fuel with
        | 0 => none
        | fuel + 1 => (stepsTo generator target fuel (current + generator)).map (· + 1)

theorem stepsTo_eq_some {fuel n : ℕ} :
    stepsTo generator target fuel point = some n ↔
      n ≤ fuel ∧ point + n • generator = target ∧
        ∀ m < n, point + m • generator ≠ target := by
  induction fuel generalizing point n with
  | zero =>
      rw [stepsTo]
      by_cases arrived : point = target
      · rw [if_pos arrived, Option.some.injEq]
        exact first_arrival_here arrived
      · rw [if_neg arrived]
        refine ⟨fun impossible => (Option.some_ne_none n impossible.symm).elim, ?_⟩
        intro ⟨zero, reached, _⟩
        rw [Nat.le_zero.mp zero, zero_smul, add_zero] at reached
        exact absurd reached arrived
  | succ fuel ih =>
      rw [stepsTo]
      by_cases arrived : point = target
      · rw [if_pos arrived, Option.some.injEq]
        exact first_arrival_here arrived
      · rw [if_neg arrived, Option.map_eq_some_iff]
        constructor
        · intro ⟨k, found, counted⟩
          subst counted
          obtain ⟨below, reached, first⟩ := ih.mp found
          refine ⟨by omega, (step_shift k).trans reached, ?_⟩
          intro m earlier
          cases m with
          | zero => simpa using arrived
          | succ m =>
              rw [step_shift]
              exact first m (by omega)
        · intro ⟨below, reached, first⟩
          cases n with
          | zero => exact absurd (by simpa using reached) arrived
          | succ n =>
              refine ⟨n, ih.mpr ⟨by omega, (step_shift n).symm.trans reached, ?_⟩, rfl⟩
              intro m earlier
              have notYet := first (m + 1) (by omega)
              rwa [step_shift] at notYet

/-- Counting from zero, the search stops at the discrete logarithm. -/
theorem Generates.stepsTo_zero [Fact q.Prime] (generates : Generates q generator) {fuel n : ℕ} :
    stepsTo generator target fuel 0 = some n ↔
      n ≤ fuel ∧ n < q ∧ n • generator = target := by
  rw [stepsTo_eq_some]
  simp only [zero_add]
  constructor
  · intro ⟨below, reached, first⟩
    refine ⟨below, ?_, reached⟩
    obtain ⟨m, bounded, log⟩ := generates.exists_log target
    by_contra beyond
    exact first m (by omega) log
  · intro ⟨below, bounded, reached⟩
    refine ⟨below, reached, ?_⟩
    intro m earlier log
    have same := (generates.nsmul_inj (by omega) bounded).mp (log.trans reached.symm)
    omega

/-! ## Blinding that cancels -/

section Blinding

variable {A R : Type*} [AddCommGroup A] [CommRing R] [Module R A]

/-- Each member's blinding: the sum of what stands before it minus the sum of
what stands after it. -/
def blindings (before : A) : List A → List A
  | [] => []
  | key :: after => (before - after.sum) :: blindings (before + key) after

@[simp] theorem length_blindings (before : A) (keys : List A) :
    (blindings before keys).length = keys.length := by
  induction keys generalizing before with
  | nil => rfl
  | cons key after ih => simp [blindings, ih]

theorem getElem?_blindings {before : A} {keys : List A} {position : ℕ}
    (inside : position < keys.length) :
    (blindings before keys)[position]? =
      some (before + (keys.take position).sum - (keys.drop (position + 1)).sum) := by
  induction keys generalizing before position with
  | nil => simp at inside
  | cons key after ih =>
      cases position with
      | zero => simp [blindings]
      | succ position =>
          rw [blindings, List.getElem?_cons_succ, ih (by simpa using inside)]
          simp [add_assoc]

/-- Weighting every blinding with its member's secret leaves nothing. -/
theorem sum_blindings (secrets : List R) (before : R) (base : A) :
    (List.zipWith (· • ·) secrets
      (blindings (before • base) (secrets.map (· • base)))).sum =
      (before * secrets.sum) • base := by
  induction secrets generalizing before with
  | nil => simp [blindings]
  | cons secret rest ih =>
      have sums : (rest.map (· • base)).sum = rest.sum • base := by
        rw [← List.sum_smul]
      simp only [List.map_cons, blindings, List.zipWith_cons_cons, List.sum_cons, sums,
        ← add_smul, ← sub_smul, ih, smul_smul]
      congr 1
      ring

end Blinding

end SmartContracts.Algebra
