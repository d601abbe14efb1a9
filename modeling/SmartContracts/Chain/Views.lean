import SmartContracts.Chain.Host
import SmartContracts.Semantics.Simulation

namespace SmartContracts.Chain

open SmartContracts.Semantics

/-! # Two states on one chain

An entrypoint can be written against the state as the contract has it in mind and
against what stands for that state on the chain.  The two are related as programs,
rule by rule; the money is the same on both sides.
-/

/-- The same chain around another state. -/
def Host.withState {σ τ : Type} (host : Host τ) (state : σ) : Host σ :=
  { state
    balance := host.balance
    transfers := host.transfers
    attempted := host.attempted
    missingAccounts := host.missingAccounts }

/-- The chains agree, and the one state stands for the other. -/
structure Shows {σ τ : Type} (view : τ → σ → Prop) (low : Host τ) (host : Host σ) : Prop where
  chain : low.withState host.state = host
  state : view low.state host.state

variable {ε σ τ α β : Type} {view : τ → σ → Prop} {low : Host τ} {host : Host σ}

namespace Shows

theorem balance (shows : Shows view low host) : low.balance = host.balance :=
  congrArg Host.balance shows.chain

theorem receiving (shows : Shows view low host) (amount : Amount) :
    Shows view (low.receiving amount) (host.receiving amount) where
  chain := congrArg (Host.receiving · amount) shows.chain
  state := shows.state

theorem transferResult (shows : Shows view low host) (receiver : AccountAddress)
    (amount : Amount) : low.transferResult receiver amount = host.transferResult receiver amount :=
  congrArg (Host.transferResult · receiver amount) shows.chain

theorem afterTransfer (shows : Shows view low host) (receiver : AccountAddress)
    (amount : Amount) :
    Shows view (low.afterTransfer receiver amount) (host.afterTransfer receiver amount) := by
  refine ⟨?_, by simpa using shows.state⟩
  rw [Host.afterTransfer_state, ← congrArg (Host.afterTransfer · receiver amount) shows.chain]
  have same : (low.withState host.state).transferResult receiver amount =
      low.transferResult receiver amount := rfl
  rw [Host.afterTransfer, Host.afterTransfer, same]
  cases low.transferResult receiver amount <;> rfl

end Shows

namespace Receive

theorem state_simulates :
    Simulates (Shows view) view (state : Receive ε τ τ) (state : Receive ε σ σ) :=
  fun _ _ shows => ⟨shows.state, shows⟩

theorem setState_simulates {next : τ} {nextHigh : σ} (stands : view next nextHigh) :
    Simulates (Shows view) (fun _ _ => True) (setState next : Receive ε τ Unit)
      (setState nextHigh) :=
  fun _ _ shows => ⟨trivial, congrArg (Host.withState · nextHigh) shows.chain, stands⟩

theorem bail_simulates {same : α → β → Prop} (error : ε) :
    Simulates (Shows view) same (bail error : Receive ε τ α) (bail error : Receive ε σ β) :=
  .throw _

theorem ensure_simulates {condition conditionHigh : Prop} [Decidable condition]
    [Decidable conditionHigh] (agree : condition ↔ conditionHigh) (error : ε) :
    Simulates (Shows view) (fun _ _ => condition) (ensure condition error : Receive ε τ Unit)
      (ensure conditionHigh error) :=
  .ite agree (fun holds => .pure holds) fun _ => bail_simulates error

theorem senderAccount_simulates (ctx : ReceiveContext) (error : ε) :
    Simulates (Shows view) Eq (senderAccount ctx error : Receive ε τ AccountAddress)
      (senderAccount ctx error) := by
  unfold senderAccount
  cases ctx.sender with
  | account address => exact .pure rfl
  | contract address => exact bail_simulates error

theorem selfBalance_simulates :
    Simulates (Shows view) Eq (selfBalance : Receive ε τ ℕ) (selfBalance : Receive ε σ ℕ) :=
  fun _ _ shows => ⟨shows.balance, shows⟩

theorem invokeTransfer_simulates (receiver : AccountAddress) (amount : Amount) :
    Simulates (Shows view) Eq (invokeTransfer receiver amount : Receive ε τ _)
      (invokeTransfer receiver amount : Receive ε σ _) :=
  fun _ _ shows => ⟨shows.transferResult receiver amount, shows.afterTransfer receiver amount⟩

theorem transfer_simulates (convert : TransferError → ε) (receiver : AccountAddress)
    (amount : Amount) :
    Simulates (Shows view) (fun _ _ => True) (transfer convert receiver amount : Receive ε τ Unit)
      (transfer convert receiver amount) := by
  apply Simulates.bind (invokeTransfer_simulates receiver amount)
  rintro result _ rfl
  cases result with
  | ok done => exact .pure trivial
  | error reason => exact bail_simulates (convert reason)

end Receive

/-- Where the programs stand for one another, so do the calls. -/
theorem Shows.returned {same : α → β → Prop} {lowProgram : Receive ε τ α}
    {program : Receive ε σ β} (simulates : Simulates (Shows view) same lowProgram program)
    (shows : Shows view low host) (amount : Amount) :
    Option.Rel (Shows view) (low.returned amount lowProgram) (host.returned amount program) := by
  have agree := simulates _ _ (shows.receiving amount)
  rw [Host.returned, Host.returned]
  cases outcome : lowProgram.run (low.receiving amount) with
  | ok result after =>
      rw [outcome] at agree
      cases outcomeHigh : program.run (host.receiving amount) with
      | ok other later =>
          rw [outcomeHigh] at agree
          exact .some agree.2
      | error failure later =>
          rw [outcomeHigh] at agree
          exact agree.elim
  | error failure after =>
      rw [outcome] at agree
      cases outcomeHigh : program.run (host.receiving amount) with
      | ok other later =>
          rw [outcomeHigh] at agree
          exact agree.elim
      | error failure later => exact .none

theorem Shows.returnedUnpaid {same : α → β → Prop} {lowProgram : Receive ε τ α}
    {program : Receive ε σ β} (simulates : Simulates (Shows view) same lowProgram program)
    (shows : Shows view low host) (amount : Amount) :
    Option.Rel (Shows view) (low.returnedUnpaid amount lowProgram)
      (host.returnedUnpaid amount program) := by
  rw [Host.returnedUnpaid, Host.returnedUnpaid]
  split
  · exact shows.returned simulates 0
  · exact .none

end SmartContracts.Chain
