import SmartContracts.Chain.Host
import SmartContracts.Data.Words

namespace SmartContracts.Fibonacci

open SmartContracts.Chain SmartContracts.Data SmartContracts.Semantics

/-! # The Fibonacci contract

A number is sent to the contract as bytes.  It calls itself for the two numbers
before, and each leaf of the recursion adds one to the state.
-/

structure State where
  result : UInt64
deriving DecidableEq

structure FibNum where
  number : UInt64
deriving DecidableEq

namespace FibNum

def toBytes (fibnum : FibNum) : Bytes := toLeBytes fibnum.number

/-- The number and the bytes after it, unless there are too few. -/
def deserial (source : Bytes) : Option (FibNum × Bytes) :=
  if 8 ≤ source.length then some (⟨fromLeBytes (source.take 8)⟩, source.drop 8) else none

theorem deserial_toBytes (fibnum : FibNum) :
    deserial fibnum.toBytes = some (fibnum, []) := by
  have size : fibnum.toBytes.length = 8 := length_toLeBytes fibnum.number
  rw [deserial, if_pos size.ge, List.take_of_length_le size.le, List.drop_of_length_le size.le,
    toBytes, fromLeBytes_toLeBytes]

end FibNum

/-- Receiving a message reads nothing else of its context. -/
structure ReceiveContext where
  sender : Address
  owner : AccountAddress
  selfAddress : ContractAddress
  parameter : Option Bytes

def newCtx (owner sender : AccountAddress) : ReceiveContext :=
  { sender := .account sender, owner, selfAddress := { index := 0, subindex := 0 },
    parameter := none }

def ReceiveContext.setParameter (ctx : ReceiveContext) (parameter : Bytes) : ReceiveContext :=
  { ctx with parameter := some parameter }

structure Reject where
  errorCode : Int32
deriving DecidableEq

def Reject.ofParseError : Reject := ⟨Int32.minValue + 2⟩

inductive Actions where
  | accept
deriving DecidableEq

/-- A call works on the state in place. -/
abbrev Receive := EStateM (Failure Reject) State

/-- A parameter that was never set is a trap, one that does not parse an error. -/
def ReceiveContext.getFibNum (ctx : ReceiveContext) : Except (Failure Reject) FibNum :=
  match ctx.parameter with
  | none => .error .trap
  | some bytes =>
      match FibNum.deserial bytes with
      | none => .error (.reject .ofParseError)
      | some (fibnum, _) => .ok fibnum

/-- The result of a call as a value; only a trap passes through. -/
def Receive.attempt {α : Type} (program : Receive α) : Receive (Except Reject α) := fun state =>
  match program state with
  | .ok result after => .ok (.ok result) after
  | .error (.reject error) after => .ok (.error error) after
  | .error .trap after => .error .trap after

def ReceiveContext.size (ctx : ReceiveContext) : ℕ :=
  match ctx.getFibNum with
  | .ok fibnum => fibnum.number.toNat
  | .error _ => 0

theorem getFibNum_setParameter (ctx : ReceiveContext) (fibnum : FibNum) :
    (ctx.setParameter fibnum.toBytes).getFibNum = .ok fibnum := by
  simp only [ReceiveContext.setParameter, ReceiveContext.getFibNum, FibNum.deserial_toBytes]

theorem sub_lt {n less : UInt64} (large : ¬ n ≤ 1) (positive : 0 < less) (small : less ≤ 2) :
    (n - less).toNat < n.toNat := by
  have one : (1 : UInt64).toNat = 1 := rfl
  have two : (2 : UInt64).toNat = 2 := rfl
  rw [UInt64.le_iff_toNat_le] at large small
  rw [UInt64.lt_iff_toNat_lt, UInt64.toNat_zero] at positive
  have below : less ≤ n := UInt64.le_iff_toNat_le.mpr (by omega)
  rw [UInt64.toNat_sub_of_le _ _ below]
  omega

/-- The bytes sent on are read back as the smaller number they stand for. -/
theorem size_lt {ctx : ReceiveContext} {fibnum : FibNum} {less : UInt64}
    (parsed : ctx.getFibNum = .ok fibnum) (large : ¬ fibnum.number ≤ 1) (positive : 0 < less)
    (small : less ≤ 2) (inner : ReceiveContext) :
    (inner.setParameter (FibNum.toBytes { number := fibnum.number - less })).size < ctx.size := by
  simp only [ReceiveContext.size, getFibNum_setParameter, parsed]
  exact sub_lt large positive small

/-- What a context asks of the contract it calls on the way down. -/
def ReceiveContext.inner (ctx : ReceiveContext) (number : UInt64) : ReceiveContext :=
  (newCtx ctx.owner ctx.owner).setParameter (FibNum.toBytes { number })

def contractInit : State := { result := 0 }

def contractReceive (ctx : ReceiveContext) : Receive Actions :=
  match _parsed : ctx.getFibNum with
  | .error failure => throw failure
  | .ok fibnum =>
      let n := fibnum.number
      if n ≤ 1 then do
        modify fun state => { state with result := state.result + 1 }
        return .accept
      else do
        let bytes1 := FibNum.toBytes { number := n - 1 }
        let bytes2 := FibNum.toBytes { number := n - 2 }
        let ctx1 := (newCtx ctx.owner ctx.owner).setParameter bytes1
        let ctx2 := (newCtx ctx.owner ctx.owner).setParameter bytes2
        let _result1 ← Receive.attempt (contractReceive ctx1)
        let _result2 ← Receive.attempt (contractReceive ctx2)
        return .accept
termination_by ctx.size
decreasing_by
  · exact size_lt _parsed ‹_› (by decide) (by decide) _
  · exact size_lt _parsed ‹_› (by decide) (by decide) _

def fib (n : UInt64) : UInt64 :=
  if n ≤ 1 then 1 else fib (n - 1) + fib (n - 2)
termination_by n.toNat
decreasing_by
  · exact sub_lt ‹_› (by decide) (by decide)
  · exact sub_lt ‹_› (by decide) (by decide)

def contractReceiveCalcFib (_ctx : ReceiveContext) (amount : Amount) : Receive Actions := do
  modify fun state => { state with result := fib amount }
  return .accept

/-! ## What a call does -/

variable {ctx : ReceiveContext} {fibnum : FibNum} {state middle after : State}

theorem attempt_ok {α : Type} {program : Receive α} {result : α}
    (returned : program.run state = .ok result after) :
    (Receive.attempt program).run state = .ok (.ok result) after := by
  change program state = _ at returned
  change Receive.attempt program state = _
  rw [Receive.attempt, returned]

theorem contractReceive_error {failure : Failure Reject}
    (parsed : ctx.getFibNum = .error failure) :
    (contractReceive ctx).run state = .error failure state := by
  rw [contractReceive]
  split
  · rename_i same
    cases same.symm.trans parsed
    rfl
  · rename_i same
    cases same.symm.trans parsed

theorem contractReceive_leaf (parsed : ctx.getFibNum = .ok fibnum) (small : fibnum.number ≤ 1) :
    (contractReceive ctx).run state = .ok .accept { result := state.result + 1 } := by
  rw [contractReceive]
  split
  · rename_i same
    cases same.symm.trans parsed
  · rename_i same
    cases same.symm.trans parsed
    simp only [small, if_true]
    rfl

/-- The two calls on the way down share the state; what they return is dropped. -/
theorem contractReceive_node (parsed : ctx.getFibNum = .ok fibnum) (large : ¬ fibnum.number ≤ 1)
    (first : (contractReceive (ctx.inner (fibnum.number - 1))).run state = .ok .accept middle)
    (second : (contractReceive (ctx.inner (fibnum.number - 2))).run middle = .ok .accept after) :
    (contractReceive ctx).run state = .ok .accept after := by
  rw [contractReceive]
  split
  · rename_i same
    cases same.symm.trans parsed
  · rename_i same
    cases same.symm.trans parsed
    simp only [large, if_false]
    exact bind_ok.mpr ⟨_, middle, attempt_ok first, bind_ok.mpr
      ⟨_, after, attempt_ok second, rfl⟩⟩

theorem getFibNum_inner (ctx : ReceiveContext) (number : UInt64) :
    (ctx.inner number).getFibNum = .ok { number } :=
  getFibNum_setParameter _ _

theorem fib_leaf {n : UInt64} (small : n ≤ 1) : fib n = 1 := by
  rw [fib, if_pos small]

theorem fib_node {n : UInt64} (large : ¬ n ≤ 1) : fib n = fib (n - 1) + fib (n - 2) := by
  rw [fib, if_neg large]

end SmartContracts.Fibonacci
