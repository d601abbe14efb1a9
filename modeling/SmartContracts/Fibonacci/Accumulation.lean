import SmartContracts.Fibonacci.Contract
import SmartContracts.Semantics.Runs

namespace SmartContracts.Fibonacci

open SmartContracts.Chain SmartContracts.Data SmartContracts.Semantics

/-! # The accumulated result

No call adds up what its two calls return, for they return nothing.  The sum is
made by the leaves of the recursion, one by one, in the state they share.
-/

variable {ctx : ReceiveContext} {fibnum : FibNum}

/-- A number that arrives is added to the state as its Fibonacci number. -/
theorem contractReceive_ok (parsed : ctx.getFibNum = .ok fibnum) (state : State) :
    (contractReceive ctx).run state =
      .ok .accept { result := state.result + fib fibnum.number } := by
  -- the induction is on the number, for every context that carries it and every state
  obtain ⟨n⟩ := fibnum
  induction size : n.toNat using Nat.strong_induction_on generalizing n ctx state with
  | _ bound ih =>
      subst size
      by_cases small : n ≤ 1
      · rw [contractReceive_leaf parsed small, fib_leaf small]
      · have first := ih _ (sub_lt small (by decide) (by decide)) state (n - 1)
          (getFibNum_inner ctx (n - 1)) rfl
        have second := ih _ (sub_lt small (by decide) (by decide))
          { result := state.result + fib (n - 1) } (n - 2) (getFibNum_inner ctx (n - 2)) rfl
        rw [contractReceive_node parsed small first second, fib_node small, ← UInt64.add_assoc]

/-- The whole of what a call does, for every parameter. -/
theorem contractReceive_run (ctx : ReceiveContext) (state : State) :
    (contractReceive ctx).run state =
      match ctx.getFibNum with
      | .ok fibnum => .ok .accept { result := state.result + fib fibnum.number }
      | .error failure => .error failure state := by
  cases parsed : ctx.getFibNum with
  | ok fibnum => exact contractReceive_ok parsed state
  | error failure => exact contractReceive_error parsed

/-! ## Runs of calls -/

/-- A call that does not return is rolled back. -/
def step (state : State) (ctx : ReceiveContext) : State :=
  match (contractReceive ctx).run state with
  | .ok _ after => after
  | .error _ _ => state

def Returns (state : State) (ctx : ReceiveContext) : Prop :=
  ∃ after, (contractReceive ctx).run state = .ok .accept after

/-- The contexts of calls that each send a number. -/
def sending (calls : List (ReceiveContext × UInt64)) : List ReceiveContext :=
  calls.map fun (ctx, n) => ctx.setParameter (FibNum.toBytes { number := n })

theorem step_ok (parsed : ctx.getFibNum = .ok fibnum) (state : State) :
    step state ctx = { result := state.result + fib fibnum.number } := by
  rw [step, contractReceive_ok parsed]

theorem run_sending (calls : List (ReceiveContext × UInt64)) (start : State) :
    Along step Returns start (sending calls) ∧
    (run step start (sending calls)).result =
      start.result + (calls.map fun call => fib call.2).sum := by
  induction calls generalizing start with
  | nil => exact ⟨trivial, (UInt64.add_zero _).symm⟩
  | cons call rest ih =>
      obtain ⟨ctx, n⟩ := call
      have parsed := getFibNum_setParameter ctx { number := n }
      obtain ⟨returns, result⟩ :=
        ih (step start (ctx.setParameter (FibNum.toBytes { number := n })))
      refine ⟨⟨⟨_, contractReceive_ok parsed start⟩, returns⟩, ?_⟩
      rw [sending, List.map_cons, run_cons, ← sending, result, step_ok parsed, List.map_cons,
        List.sum_cons, UInt64.add_assoc]

/-- Numbers sent in any order all arrive, and are added up as their Fibonacci
numbers.  Sent to a fresh contract, a number leaves there what is calculated for
it directly. -/
theorem receives_fib (calls : List (ReceiveContext × UInt64)) (start : State) :
    Along step Returns start (sending calls) ∧
    (run step start (sending calls)).result =
      start.result + (calls.map fun call => fib call.2).sum ∧
    ∀ (ctx other : ReceiveContext) (n : UInt64) (before : State),
      (contractReceive (ctx.setParameter (FibNum.toBytes { number := n }))).run contractInit =
        (contractReceiveCalcFib other n).run before := by
  obtain ⟨returns, result⟩ := run_sending calls start
  refine ⟨returns, result, fun ctx other n before => ?_⟩
  rw [contractReceive_ok (getFibNum_setParameter ctx { number := n }), contractInit,
    UInt64.zero_add]
  rfl

/-! ## Fibonacci numbers -/

/-- What is calculated is the Fibonacci number as far as it fits a word. -/
theorem fib_toNat (n : UInt64) : (fib n).toNat = Nat.fib (n.toNat + 1) % 2 ^ 64 := by
  induction size : n.toNat using Nat.strong_induction_on generalizing n with
  | _ bound ih =>
      subst size
      have one : (1 : UInt64).toNat = 1 := rfl
      have two : (2 : UInt64).toNat = 2 := rfl
      by_cases small : n ≤ 1
      · rw [fib_leaf small]
        rw [UInt64.le_iff_toNat_le, one] at small
        interval_cases n.toNat <;> rfl
      · have first := ih _ (sub_lt small (by decide) (by decide)) (n - 1) rfl
        have second := ih _ (sub_lt small (by decide) (by decide)) (n - 2) rfl
        have large : 2 ≤ n.toNat := by
          rw [UInt64.le_iff_toNat_le, one] at small
          omega
        have above : 1 ≤ n := UInt64.le_iff_toNat_le.mpr (one.trans_le (by omega))
        have further : 2 ≤ n := UInt64.le_iff_toNat_le.mpr (two.trans_le large)
        rw [UInt64.toNat_sub_of_le _ _ above, one] at first
        rw [UInt64.toNat_sub_of_le _ _ further, two] at second
        rw [fib_node small, UInt64.toNat_add, first, second, ← Nat.add_mod]
        obtain ⟨before, number⟩ := Nat.exists_eq_add_of_le' large
        rw [number]
        exact congrArg (· % 2 ^ 64) ((Nat.add_comm _ _).trans Nat.fib_add_two.symm)

end SmartContracts.Fibonacci
