import SmartContracts.Chain.Types
import SmartContracts.Semantics.Failure

namespace SmartContracts.Chain

open SmartContracts.Semantics

/-! # The host of a contract

The host holds the contract's state and its money.  A receive function runs
against it and either returns, rejects with an error of its own, or traps; in
the last two cases the host is kept as it stood when the function stopped, and
it is the chain that rolls the call back.
-/

structure Host (σ : Type) where
  state : σ
  balance : ℕ
  -- completed transfers, oldest first
  transfers : List (AccountAddress × Amount)
  -- every invoked transfer, completed or not
  attempted : List (AccountAddress × Amount)
  missingAccounts : List AccountAddress

namespace Host

variable {σ : Type}

def deployed (state : σ) : Host σ :=
  { state, balance := 0, transfers := [], attempted := [], missingAccounts := [] }

def transferResult (host : Host σ) (receiver : AccountAddress) (amount : Amount) :
    Except TransferError Unit :=
  if receiver ∈ host.missingAccounts then .error .missingAccount
  else if amount.toNat ≤ host.balance then .ok ()
  else .error .amountTooLarge

def afterTransfer (host : Host σ) (receiver : AccountAddress) (amount : Amount) : Host σ :=
  match host.transferResult receiver amount with
  | .ok _ =>
      { host with
        balance := host.balance - amount.toNat
        transfers := host.transfers ++ [(receiver, amount)]
        attempted := host.attempted ++ [(receiver, amount)] }
  | .error _ => { host with attempted := host.attempted ++ [(receiver, amount)] }

variable {host : Host σ} {receiver : AccountAddress} {amount : Amount}

theorem transferResult_ok :
    host.transferResult receiver amount = .ok () ↔
      receiver ∉ host.missingAccounts ∧ amount.toNat ≤ host.balance := by
  unfold transferResult
  split <;> try split
  all_goals simp_all

@[simp] theorem afterTransfer_state :
    (host.afterTransfer receiver amount).state = host.state := by
  unfold afterTransfer
  split <;> rfl

@[simp] theorem afterTransfer_attempted :
    (host.afterTransfer receiver amount).attempted = host.attempted ++ [(receiver, amount)] := by
  unfold afterTransfer
  split <;> rfl

@[simp] theorem afterTransfer_missingAccounts :
    (host.afterTransfer receiver amount).missingAccounts = host.missingAccounts := by
  unfold afterTransfer
  split <;> rfl

theorem afterTransfer_of_ok (completed : host.transferResult receiver amount = .ok ()) :
    host.afterTransfer receiver amount =
      { host with
        balance := host.balance - amount.toNat
        transfers := host.transfers ++ [(receiver, amount)]
        attempted := host.attempted ++ [(receiver, amount)] } := by
  simp [afterTransfer, completed]

end Host

inductive Failure (ε : Type) where
  | reject (error : ε)
  | trap
deriving DecidableEq

def Failure.map {ε ε' : Type} (convert : ε → ε') : Failure ε → Failure ε'
  | .reject error => .reject (convert error)
  | .trap => .trap

abbrev Receive (ε σ α : Type) := EStateM (Failure ε) (Host σ) α

namespace Receive

variable {ε ε' σ α : Type}

def bail (error : ε) : Receive ε σ α := throw (.reject error)

def trap : Receive ε σ α := throw .trap

def ensure (condition : Prop) [Decidable condition] (error : ε) : Receive ε σ Unit :=
  if condition then pure () else bail error

/-- A value or a trap, as `unwrap` and `unwrap_abort` give it. -/
def unwrapAbort : Option α → Receive ε σ α
  | some value => pure value
  | none => trap

def getParameter (parameter : Option α) (error : ε) : Receive ε σ α :=
  match parameter with
  | some value => pure value
  | none => bail error

def senderAccount (ctx : ReceiveContext) (error : ε) : Receive ε σ AccountAddress :=
  match ctx.sender with
  | .contract _ => bail error
  | .account address => pure address

def state : Receive ε σ σ := fun host => .ok host.state host

def setState (next : σ) : Receive ε σ Unit := fun host => .ok () { host with state := next }

def selfBalance : Receive ε σ ℕ := fun host => .ok host.balance host

def invokeTransfer (receiver : AccountAddress) (amount : Amount) :
    Receive ε σ (Except TransferError Unit) := fun host =>
  .ok (host.transferResult receiver amount) (host.afterTransfer receiver amount)

/-- `host.invoke_transfer(&receiver, amount)?` -/
def transfer (convert : TransferError → ε) (receiver : AccountAddress) (amount : Amount) :
    Receive ε σ Unit := do
  match ← invokeTransfer receiver amount with
  | .ok _ => pure ()
  | .error error => bail (convert error)

def mapError (convert : ε → ε') (program : Receive ε σ α) : Receive ε' σ α :=
  EStateM.adaptExcept (Failure.map convert) program

variable {before after : Host σ} {condition : Prop} [Decidable condition] {error : ε}
  {failure : Failure ε}

theorem bail_ok {result : α} :
    (bail error : Receive ε σ α).run before = .ok result after ↔ False := throw_ok

theorem trap_ok {result : α} :
    (trap : Receive ε σ α).run before = .ok result after ↔ False := throw_ok

theorem ensure_ok {result : Unit} :
    (ensure condition error : Receive ε σ Unit).run before = .ok result after ↔
      condition ∧ before = after := by
  unfold ensure
  split <;> simp [*, bail_ok]

theorem unwrapAbort_ok {value : Option α} {result : α} :
    (unwrapAbort value : Receive ε σ α).run before = .ok result after ↔
      value = some result ∧ before = after := by
  cases value <;> simp [unwrapAbort, trap_ok]

theorem getParameter_ok {parameter : Option α} {result : α} :
    (getParameter parameter error : Receive ε σ α).run before = .ok result after ↔
      parameter = some result ∧ before = after := by
  cases parameter <;> simp [getParameter, bail_ok]

theorem senderAccount_ok {ctx : ReceiveContext} {result : AccountAddress} :
    (senderAccount ctx error : Receive ε σ _).run before = .ok result after ↔
      ctx.sender = .account result ∧ before = after := by
  unfold senderAccount
  split <;> simp [*, bail_ok]

theorem state_ok {result : σ} :
    (state : Receive ε σ σ).run before = .ok result after ↔
      before.state = result ∧ before = after := by
  change EStateM.Result.ok before.state before = .ok result after ↔ _
  simp

theorem setState_ok {next : σ} {result : Unit} :
    (setState next : Receive ε σ Unit).run before = .ok result after ↔
      { before with state := next } = after := by
  change EStateM.Result.ok () { before with state := next } = .ok result after ↔ _
  simp

theorem selfBalance_ok {result : ℕ} :
    (selfBalance : Receive ε σ ℕ).run before = .ok result after ↔
      before.balance = result ∧ before = after := by
  change EStateM.Result.ok before.balance before = .ok result after ↔ _
  simp

theorem invokeTransfer_ok {receiver : AccountAddress} {amount : Amount}
    {result : Except TransferError Unit} :
    (invokeTransfer receiver amount : Receive ε σ _).run before = .ok result after ↔
      before.transferResult receiver amount = result ∧
        before.afterTransfer receiver amount = after := by
  change EStateM.Result.ok _ _ = .ok result after ↔ _
  simp

theorem transfer_ok_iff {convert : TransferError → ε} {receiver : AccountAddress}
    {amount : Amount} {result : Unit} :
    (transfer convert receiver amount : Receive ε σ Unit).run before = .ok result after ↔
      before.transferResult receiver amount = .ok () ∧
        after = before.afterTransfer receiver amount := by
  simp only [transfer, bind_ok, invokeTransfer_ok]
  cases outcome : before.transferResult receiver amount with
  | ok completed => simp [eq_comm]
  | error failure => simp [bail_ok]

theorem mapError_ok {program : Receive ε σ α} {convert : ε → ε'} {result : α} :
    (mapError convert program).run before = .ok result after ↔
      program.run before = .ok result after := adaptExcept_ok

/-! Where a function stops that does not return. -/

theorem bail_error :
    (bail error : Receive ε σ α).run before = .error failure after ↔
      .reject error = failure ∧ before = after := throw_error

theorem ensure_error :
    (ensure condition error : Receive ε σ Unit).run before = .error failure after ↔
      ¬ condition ∧ .reject error = failure ∧ before = after := by
  unfold ensure
  split <;> simp [*, bail_error]

theorem unwrapAbort_error {value : Option α} :
    (unwrapAbort value : Receive ε σ α).run before = .error failure after ↔
      value = none ∧ .trap = failure ∧ before = after := by
  cases value <;> simp [unwrapAbort, trap, throw_error]

theorem getParameter_error {parameter : Option α} :
    (getParameter parameter error : Receive ε σ α).run before = .error failure after ↔
      parameter = none ∧ .reject error = failure ∧ before = after := by
  cases parameter <;> simp [getParameter, bail_error]

theorem senderAccount_error {ctx : ReceiveContext} :
    (senderAccount ctx error : Receive ε σ _).run before = .error failure after ↔
      (∃ address, ctx.sender = .contract address) ∧ .reject error = failure ∧ before = after := by
  unfold senderAccount
  split <;> simp [*, bail_error]

theorem state_error : (state : Receive ε σ σ).run before = .error failure after ↔ False := by
  change EStateM.Result.ok before.state before = .error failure after ↔ _
  simp

theorem setState_error {next : σ} :
    (setState next : Receive ε σ Unit).run before = .error failure after ↔ False := by
  change EStateM.Result.ok () { before with state := next } = .error failure after ↔ _
  simp

theorem invokeTransfer_error {receiver : AccountAddress} {amount : Amount} :
    (invokeTransfer receiver amount : Receive ε σ _).run before = .error failure after ↔
      False := by
  change EStateM.Result.ok _ _ = .error failure after ↔ _
  simp

theorem transfer_error {convert : TransferError → ε} {receiver : AccountAddress}
    {amount : Amount} :
    (transfer convert receiver amount : Receive ε σ Unit).run before = .error failure after ↔
      ∃ reason, before.transferResult receiver amount = .error reason ∧
        .reject (convert reason) = failure ∧ before.afterTransfer receiver amount = after := by
  simp only [transfer, bind_error, invokeTransfer_error, invokeTransfer_ok, false_or]
  cases outcome : before.transferResult receiver amount with
  | ok completed => simp
  | error reason => simp [bail_error]

/-! What only reads the host, and what writes it without failing. -/

theorem ensure_reads : Reads (ensure condition error : Receive ε σ Unit) :=
  fun _ => ⟨fun _ _ returned => (ensure_ok.mp returned).2.symm,
    fun _ _ failed => (ensure_error.mp failed).2.2.symm⟩

theorem unwrapAbort_reads {value : Option α} : Reads (unwrapAbort value : Receive ε σ α) :=
  fun _ => ⟨fun _ _ returned => (unwrapAbort_ok.mp returned).2.symm,
    fun _ _ failed => (unwrapAbort_error.mp failed).2.2.symm⟩

theorem getParameter_reads {parameter : Option α} :
    Reads (getParameter parameter error : Receive ε σ α) :=
  fun _ => ⟨fun _ _ returned => (getParameter_ok.mp returned).2.symm,
    fun _ _ failed => (getParameter_error.mp failed).2.2.symm⟩

theorem senderAccount_reads {ctx : ReceiveContext} :
    Reads (senderAccount ctx error : Receive ε σ AccountAddress) :=
  fun _ => ⟨fun _ _ returned => (senderAccount_ok.mp returned).2.symm,
    fun _ _ failed => (senderAccount_error.mp failed).2.2.symm⟩

theorem state_reads : Reads (state : Receive ε σ σ) :=
  fun _ => ⟨fun _ _ returned => (state_ok.mp returned).2.symm,
    fun _ _ failed => absurd failed state_error.mp⟩

theorem setState_unfailing {next : σ} : Unfailing (setState next : Receive ε σ Unit) before :=
  fun _ _ => setState_error.mp

theorem invokeTransfer_unfailing {receiver : AccountAddress} {amount : Amount} :
    Unfailing (invokeTransfer receiver amount : Receive ε σ _) before :=
  fun _ _ => invokeTransfer_error.mp

end Receive

/-! ## Calls as the chain executes them -/

namespace Host

variable {σ ε α : Type}

def receiving (host : Host σ) (amount : Amount) : Host σ :=
  { host with balance := host.balance + amount.toNat }

/-- A call that does not return is rolled back with its amount. -/
def transact (host : Host σ) (amount : Amount) (entrypoint : Receive ε σ α) : Host σ :=
  match entrypoint.run (host.receiving amount) with
  | .ok _ after => after
  | .error _ _ => host

/-- The host that a call leaves, if it returns. -/
def returned (host : Host σ) (amount : Amount) (entrypoint : Receive ε σ α) : Option (Host σ) :=
  match entrypoint.run (host.receiving amount) with
  | .ok _ after => some after
  | .error _ _ => none

/-- The host as it stands when a call stops without returning. -/
def stopped (host : Host σ) (amount : Amount) (entrypoint : Receive ε σ α) : Option (Host σ) :=
  match entrypoint.run (host.receiving amount) with
  | .ok _ _ => none
  | .error _ after => some after

def returnedUnpaid (host : Host σ) (amount : Amount) (entrypoint : Receive ε σ α) :
    Option (Host σ) :=
  if amount = 0 then host.returned 0 entrypoint else none

def stoppedUnpaid (host : Host σ) (amount : Amount) (entrypoint : Receive ε σ α) :
    Option (Host σ) :=
  if amount = 0 then host.stopped 0 entrypoint else some (host.receiving amount)

/-- The wrapper generated for an entrypoint that is not marked `payable` turns
every call with money away. -/
def transactUnpaid (host : Host σ) (amount : Amount) (entrypoint : Receive ε σ α) : Host σ :=
  if amount = 0 then host.transact 0 entrypoint else host

variable {host : Host σ} {amount : Amount} {entrypoint : Receive ε σ α}

@[simp] theorem receiving_zero : host.receiving 0 = host := rfl

@[simp] theorem receiving_state : (host.receiving amount).state = host.state := rfl

theorem returned_eq_some {after : Host σ} :
    host.returned amount entrypoint = some after ↔
      ∃ result, entrypoint.run (host.receiving amount) = .ok result after := by
  unfold returned
  cases outcome : entrypoint.run (host.receiving amount) <;> simp

theorem returnedUnpaid_eq_some {after : Host σ} :
    host.returnedUnpaid amount entrypoint = some after ↔
      amount = 0 ∧ ∃ result, entrypoint.run host = .ok result after := by
  unfold returnedUnpaid
  split
  · rename_i free
    simp [returned_eq_some, free]
  · rename_i paid
    simp [paid]

theorem stopped_isSome :
    (host.stopped amount entrypoint).isSome ↔ host.returned amount entrypoint = none := by
  unfold stopped returned
  cases outcome : entrypoint.run (host.receiving amount) <;> simp

theorem stoppedUnpaid_isSome :
    (host.stoppedUnpaid amount entrypoint).isSome ↔
      host.returnedUnpaid amount entrypoint = none := by
  unfold stoppedUnpaid returnedUnpaid
  split
  · exact stopped_isSome
  · simp

theorem stopped_of_clean (clean : Clean entrypoint (host.receiving amount)) {left : Host σ}
    (stops : host.stopped amount entrypoint = some left) : left = host.receiving amount := by
  unfold stopped at stops
  cases outcome : entrypoint.run (host.receiving amount) with
  | ok result after => simp [outcome] at stops
  | error failure after =>
      simp only [outcome, Option.some.injEq] at stops
      exact stops.symm.trans (clean failure after outcome)

theorem stoppedUnpaid_of_clean (clean : Clean entrypoint host) {left : Host σ}
    (stops : host.stoppedUnpaid amount entrypoint = some left) : left = host.receiving amount := by
  unfold stoppedUnpaid at stops
  split at stops
  · rename_i free
    rw [free]
    exact stopped_of_clean clean stops
  · exact (Option.some.inj stops).symm

theorem transact_of_ok {result : α} {after : Host σ}
    (returned : entrypoint.run (host.receiving amount) = .ok result after) :
    host.transact amount entrypoint = after := by
  rw [transact, returned]

theorem transactUnpaid_of_ok {result : α} {after : Host σ}
    (returned : entrypoint.run host = .ok result after) :
    host.transactUnpaid 0 entrypoint = after := by
  rw [transactUnpaid, if_pos rfl]
  exact transact_of_ok returned

/-- A call changes the host only by returning. -/
theorem transact_cases (host : Host σ) (amount : Amount) (entrypoint : Receive ε σ α) :
    host.transact amount entrypoint = host ∨
      ∃ result, entrypoint.run (host.receiving amount) =
        .ok result (host.transact amount entrypoint) := by
  unfold transact
  cases outcome : entrypoint.run (host.receiving amount) with
  | ok result after => exact .inr ⟨result, rfl⟩
  | error failure after => exact .inl rfl

theorem transactUnpaid_cases (host : Host σ) (amount : Amount) (entrypoint : Receive ε σ α) :
    host.transactUnpaid amount entrypoint = host ∨
      amount = 0 ∧ ∃ result, entrypoint.run host =
        .ok result (host.transactUnpaid amount entrypoint) := by
  unfold transactUnpaid
  split
  · rename_i free
    exact (transact_cases host 0 entrypoint).imp id (fun returned => ⟨free, returned⟩)
  · exact .inl rfl

end Host

end SmartContracts.Chain
