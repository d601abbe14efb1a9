import SmartContracts.Commerce.Protocol

namespace SmartContracts.Commerce

open SmartContracts.Chain SmartContracts.Semantics

/-! # Payments that do not go through

The seven actions that close a purchase write its last state and then drop the
result of the transfer, so they return whether or not the money has moved.
-/

/-- The payment owed by a call that passes every check on the state before it. -/
def Due (action : Action) (sender : Address) (amount : Amount) (id : UInt64)
    (before : Host ContractState) (payment : AccountAddress × Amount) : Prop :=
  ∃ purchase, before.state.contracts[asUsize id]? = some purchase ∧
    ∃ price, action.price before.state purchase = some price ∧
      sender = .account (action.party.account before.state purchase) ∧
      purchase.state ∈ action.sources ∧ amount = action.wager price ∧
      action.Admits before.state purchase ∧
      action.payment before.state purchase price = some payment

/-- The call has moved the money it was to move. -/
structure PaidOut (before after : Host ContractState) (payment : AccountAddress × Amount) :
    Prop where
  attempted : after.attempted = before.attempted ++ [payment]
  transferred : after.transfers = before.transfers ++ [payment]
  balance : after.balance + payment.2.toNat = before.balance

variable {owner : AccountAddress} {host after : Host ContractState} {tx : Transaction}
  {id : UInt64} {action : Action} {payment : AccountAddress × Amount}

theorem Action.wager_of_closed {price : UInt64} (closing : action.target.closed = true) :
    action.wager price = 0 := by
  cases action <;> first | rfl | cases closing

theorem paidOut_offering {state : ContractState} :
    PaidOut host ({ host with state }.offering (some payment)) payment ↔
      host.CanPay [payment] := by
  obtain ⟨receiver, amount⟩ := payment
  have same : { host with state }.transferResult receiver amount =
      host.transferResult receiver amount := rfl
  rw [Host.offering, ← Host.transferResult_ok_iff]
  constructor
  · intro paid
    have transferred := paid.transferred
    cases result : host.transferResult receiver amount with
    | ok completed => rfl
    | error failure => simp [Host.afterTransfer, same, result] at transferred
  · intro completes
    have covered := (Host.transferResult_ok.mp completes).2
    rw [Host.afterTransfer_of_ok (same.trans completes)]
    exact ⟨rfl, rfl, Nat.sub_add_cancel covered⟩

theorem paidOut_iff_due (target : tx.call.target = some (id, action))
    (closing : action.target.closed = true) :
    (∀ after, outcome owner host tx = some after → ∃ payment, PaidOut host after payment) ↔
      ∀ payment, Due action tx.sender tx.amount id host payment → host.CanPay [payment] := by
  simp only [outcome_target target]
  have kept : ∀ {price : UInt64}, tx.amount = action.wager price →
      host.receiving tx.amount = host := by
    intro price wager
    rw [wager, Action.wager_of_closed closing, Host.receiving_zero]
  constructor
  · intro pays payment due
    obtain ⟨purchase, found, price, quoted, party, stage, wager, admits, owed⟩ := due
    obtain ⟨other, paid⟩ := pays _ ⟨purchase, found, price, quoted, party, stage, wager, admits,
      rfl⟩
    rw [kept wager, owed] at paid
    have same : payment = other := by
      have attempted := paid.attempted
      simpa using attempted
    rw [same] at paid ⊢
    exact paidOut_offering.mp paid
  · intro payable after acts
    obtain ⟨purchase, found, price, quoted, party, stage, wager, admits, acted⟩ := acts
    have pays : (action.payment host.state purchase price).isSome = true :=
      Action.payment_isSome.trans closing
    obtain ⟨payment, owed⟩ := Option.isSome_iff_exists.mp pays
    rw [kept wager] at acted
    rw [acted, owed]
    exact ⟨payment, paidOut_offering.mpr (payable payment
      ⟨purchase, found, price, quoted, party, stage, wager, admits, owed⟩)⟩

/-- The entrypoints that invoke a transfer. -/
def Call.paying : Call → Bool
  | .buyerAbort _ | .confirmDelivery _ | .buyerCallTimeout _ | .openCommitment _
  | .sellerCallTimeout _ | .rejectContract _ | .forfeitDispute _ => true
  | .requestPurchase _ | .disputeDelivery _ | .acceptContract _ | .itemWasDelivered _
  | .counterDispute _ | .updateListings _ => false

theorem Call.closed_of_paying {call : Call} (paying : call.paying = true)
    (target : call.target = some (id, action)) : action.target.closed = true := by
  cases call with
  | requestPurchase | disputeDelivery | acceptContract | itemWasDelivered | counterDispute
  | updateListings => cases paying
  | _ =>
      obtain ⟨_, _, same⟩ := Option.map_eq_some_iff.mp target
      cases same
      rfl

/-- A paying call that returns has moved its money just when, all its checks
passed, the payee exists and the balance covers what is due. -/
theorem paidOut_iff (paying : tx.call.paying = true) :
    (∀ after, outcome owner host tx = some after → ∃ payment, PaidOut host after payment) ↔
      ∀ id action payment, tx.call.target = some (id, action) →
        Due action tx.sender tx.amount id host payment → host.CanPay [payment] := by
  cases target : tx.call.target with
  | none =>
      refine ⟨fun _ _ _ _ named => (by cases named), fun _ after returned => ?_⟩
      cases effect_of_outcome returned with
      | requested _ _ _ call => simp [call, Call.paying] at paying
      | acted _ _ named => cases target.symm.trans named
      | relisted _ call => simp [call, Call.paying] at paying
  | some named =>
      obtain ⟨id, action⟩ := named
      rw [paidOut_iff_due target (Call.closed_of_paying paying target)]
      constructor
      · intro payable _ _ payment same
        cases same
        exact payable payment
      · intro payable payment
        exact payable id action payment rfl

namespace Shop

def postcard : Host ContractState := run (step vendor) start [requests 2 1 1]

def aborts (item : UInt64) : Transaction := send 2 0 (.buyerAbort (some { id := 0, item }))

end Shop

theorem paidOut_iff_postcard :
    ∃ after payment, outcome Shop.vendor Shop.postcard (Shop.aborts 1) = some after ∧
      PaidOut Shop.postcard after payment := by
  have reached : ∀ host, Shop.postcard = host →
      host.state.listings[asUsize 1]?.map Item.itemValue = some 1 ∧ host.balance = 1 ∧
        host.missingAccounts = [] := by
    rintro _ rfl
    decide +kernel
  obtain ⟨listed, balance, present⟩ := reached _ rfl
  have returns : (outcome Shop.vendor Shop.postcard (Shop.aborts 1)).isSome = true := by
    decide +kernel
  obtain ⟨after, returned⟩ := Option.isSome_iff_exists.mp returns
  have payable : ∀ id action payment, (Shop.aborts 1).call.target = some (id, action) →
      Due action (Shop.aborts 1).sender (Shop.aborts 1).amount id Shop.postcard payment →
      Shop.postcard.CanPay [payment] := by
    intro id action payment target due
    cases target
    obtain ⟨purchase, _, price, quoted, _, _, _, _, owed⟩ := due
    cases Option.some.inj (quoted.symm.trans listed)
    cases owed
    refine ⟨fun payee _ => ?_, ?_⟩
    · rw [present]
      exact List.not_mem_nil
    · rw [balance]
      exact le_rfl
  have paying : (Shop.aborts 1).call.paying = true := rfl
  obtain ⟨payment, paid⟩ := (paidOut_iff paying).mpr payable after returned
  exact ⟨after, payment, returned, paid⟩

/-- The postcard is aborted for the price of the painting: the purchase fails,
nothing is transferred and the call returns. -/
theorem not_paidOut_painting :
    ∃ after, outcome Shop.vendor Shop.postcard (Shop.aborts 0) = some after ∧
      after.state.purchases = [.failed] ∧ after.balance = 1 ∧
      ¬ ∃ payment, PaidOut Shop.postcard after payment := by
  have reached : (outcome Shop.vendor Shop.postcard (Shop.aborts 0)).map
      (fun after => (after.state.purchases, after.balance, after.transfers)) =
        some ([.failed], 1, []) := by
    decide +kernel
  obtain ⟨after, returned, same⟩ := Option.map_eq_some_iff.mp reached
  obtain ⟨purchases, rest⟩ := Prod.mk.inj same
  obtain ⟨balance, transfers⟩ := Prod.mk.inj rest
  refine ⟨after, returned, purchases, balance, fun paid => ?_⟩
  obtain ⟨payment, paid⟩ := paid
  have transferred := paid.transferred
  simp [transfers] at transferred

end SmartContracts.Commerce
