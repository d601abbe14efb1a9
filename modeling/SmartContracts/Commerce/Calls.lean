import SmartContracts.Chain.Payments
import SmartContracts.Commerce.Contract

namespace SmartContracts.Commerce

open SmartContracts.Chain SmartContracts.Semantics

/-! # What each entrypoint can do

Eleven of the thirteen entrypoints act on one purchase.  `Action` tabulates what
they look up, check, write and pay, and `Acts` says how a call that returns has
acted; nothing after this module looks inside an entrypoint.
-/

inductive Party where
  | buyer
  | vendor
deriving DecidableEq

inductive Action where
  | abort (item : UInt64)
  | confirmDelivery
  | disputeDelivery (commitment : UInt64)
  | buyerTimeout
  | openCommitment (buyerBit : Bool)
  | sellerTimeout
  | rejectContract
  | acceptContract
  | itemWasDelivered
  | forfeitDispute
  | counterDispute (randomBit : Bool)
deriving DecidableEq

namespace Action

def party : Action → Party
  | abort _ | confirmDelivery | disputeDelivery _ | buyerTimeout | openCommitment _ => .buyer
  | sellerTimeout | rejectContract | acceptContract | itemWasDelivered | forfeitDispute
  | counterDispute _ => .vendor

def sources : Action → List State
  | abort _ | rejectContract | acceptContract => [.requested]
  | itemWasDelivered => [.accepted]
  | confirmDelivery | disputeDelivery _ => [.delivered]
  | forfeitDispute | counterDispute _ => [.dispute]
  | openCommitment _ => [.counter]
  | buyerTimeout => [.dispute, .accepted]
  | sellerTimeout => [.delivered, .counter]

def target : Action → State
  | acceptContract => .accepted
  | rejectContract => .rejected
  | itemWasDelivered => .delivered
  | disputeDelivery _ => .dispute
  | counterDispute _ => .counter
  | confirmDelivery | sellerTimeout => .completed
  | abort _ | buyerTimeout | openCommitment _ | forfeitDispute => .failed

/-- The price in the listing that is looked up, if one is. -/
def price (state : ContractState) (purchase : Purchase) : Action → Option UInt64
  | abort item => state.listings[asUsize item]?.map Item.itemValue
  | acceptContract | itemWasDelivered => some 0
  | confirmDelivery | disputeDelivery _ | buyerTimeout | openCommitment _ | sellerTimeout
  | rejectContract | forfeitDispute | counterDispute _ =>
      state.listings[asUsize purchase.item]?.map Item.itemValue

/-- What has to be paid in with the call. -/
def wager (price : UInt64) : Action → Amount
  | disputeDelivery _ | counterDispute _ => price
  | _ => 0

def Admits (state : ContractState) (purchase : Purchase) : Action → Prop
  | buyerTimeout | sellerTimeout =>
      tsfix purchase.timestamp > purchase.timestamp + state.timeout
  | openCommitment _ => purchase.commit = 0
  | _ => True

def written (purchase : Purchase) : Action → Purchase
  | disputeDelivery commitment =>
      { purchase with
        state := .dispute, commit := commitment, timestamp := tsfix purchase.timestamp }
  | counterDispute randomBit =>
      { purchase with
        state := .counter, timestamp := tsfix purchase.timestamp, sellerBit := randomBit }
  | acceptContract =>
      { purchase with state := .accepted, timestamp := tsfix purchase.timestamp }
  | itemWasDelivered =>
      { purchase with state := .delivered, timestamp := tsfix purchase.timestamp }
  | rejectContract => { purchase with state := .rejected }
  | confirmDelivery | sellerTimeout => { purchase with state := .completed }
  | abort _ | buyerTimeout | openCommitment _ | forfeitDispute =>
      { purchase with state := .failed }

def payment (state : ContractState) (purchase : Purchase) (price : UInt64) :
    Action → Option (AccountAddress × Amount)
  | abort _ | rejectContract => some (purchase.buyer, price)
  | confirmDelivery | sellerTimeout => some (state.vendor, price)
  | buyerTimeout =>
      some (purchase.buyer, if purchase.state = .dispute then price * 2 else price)
  | openCommitment buyerBit =>
      some (if purchase.sellerBit ≠ buyerBit then state.vendor else purchase.buyer, 2 * price)
  | forfeitDispute => some (purchase.buyer, price * 2)
  | disputeDelivery _ | counterDispute _ | acceptContract | itemWasDelivered => none

theorem written_state (purchase : Purchase) (action : Action) :
    (action.written purchase).state = action.target := by
  cases action <;> rfl

theorem written_item (purchase : Purchase) (action : Action) :
    (action.written purchase).item = purchase.item := by
  cases action <;> rfl

end Action

def Party.account (state : ContractState) (purchase : Purchase) : Party → AccountAddress
  | .buyer => purchase.buyer
  | .vendor => state.vendor

namespace ContractState

variable (state : ContractState)

def withContract (id : UInt64) (contract : Purchase) : ContractState :=
  { state with contracts := state.contracts.set (asUsize id) contract }

def requested (buyer : AccountAddress) (parameters : BuyerRequestPurchaseParameter) :
    ContractState :=
  { state with
    contracts := state.contracts ++ [{
      commit := 0, timestamp := parameters.timestamp, item := 0, sellerBit := false,
      notes := parameters.info, state := .requested, buyer }] }

def relisted (parameters : SellerUpdateListingsParameter) : ContractState :=
  { state with
    listings := state.listings.set (asUsize parameters.itemId) {
      itemValue := parameters.value * 10 ^ 9, description := parameters.description } }

@[simp] theorem withContract_vendor {id : UInt64} {contract : Purchase} :
    (state.withContract id contract).vendor = state.vendor := rfl

@[simp] theorem withContract_listings {id : UInt64} {contract : Purchase} :
    (state.withContract id contract).listings = state.listings := rfl

end ContractState

/-- A call of the sender with some money has acted on the purchase with this id. -/
def Acts (action : Action) (sender : Address) (amount : Amount) (id : UInt64)
    (before after : Host ContractState) : Prop :=
  ∃ purchase, before.state.contracts[asUsize id]? = some purchase ∧
    ∃ price, action.price before.state purchase = some price ∧
      sender = .account (action.party.account before.state purchase) ∧
      purchase.state ∈ action.sources ∧ amount = action.wager price ∧
      action.Admits before.state purchase ∧
      after = Host.offering
        { before with state := before.state.withContract id (action.written purchase) }
        (action.payment before.state purchase price)

section Entrypoints

variable {ε : Type} {ctx : ReceiveContext} {amount : Amount} {before after : Host ContractState}

theorem getContract_ok {id : UInt64} {contract : Purchase} :
    (getContract id : Receive ε ContractState Purchase).run before = .ok contract after ↔
      before.state.contracts[asUsize id]? = some contract ∧ before = after := by
  simp only [getContract, bind_ok, Receive.state_ok, Receive.unwrapAbort_ok]
  grind

theorem getListing_ok {item : UInt64} {listing : Item} :
    (getListing item : Receive ε ContractState Item).run before = .ok listing after ↔
      before.state.listings[asUsize item]? = some listing ∧ before = after := by
  simp only [getListing, bind_ok, Receive.state_ok, Receive.unwrapAbort_ok]
  grind

theorem setContract_ok {id : UInt64} {contract : Purchase} {result : Unit} :
    (setContract id contract : Receive ε ContractState Unit).run before = .ok result after ↔
      after = { before with state := before.state.withContract id contract } := by
  simp only [setContract, bind_ok, Receive.state_ok, Receive.setState_ok]
  constructor
  · intro returned
    obtain ⟨_, _, ⟨current, same⟩, stored⟩ := returned
    subst current same
    exact stored.symm
  · intro stored
    exact ⟨_, _, ⟨rfl, rfl⟩, stored.symm⟩

theorem invokeTransfer_ok {receiver : AccountAddress} {result : Unit} :
    (invokeTransfer receiver amount : Receive ε ContractState Unit).run before =
        .ok result after ↔
      after = before.afterTransfer receiver amount := by
  simp only [invokeTransfer, bind_ok, Receive.invokeTransfer_ok, pure_ok]
  grind

theorem ite_invokeTransfer {condition : Prop} [Decidable condition]
    {first second : AccountAddress} :
    (if condition then invokeTransfer first amount else invokeTransfer second amount :
      Receive ε ContractState Unit) =
      invokeTransfer (if condition then first else second) amount := by
  split <;> rfl

-- the rules by which an entrypoint is run, in place of the one that runs it by cases
attribute [-simp] EStateM.run_bind
attribute [local simp] bind_ok pure_ok Receive.state_ok Receive.setState_ok Receive.ensure_ok
  Receive.getParameter_ok Receive.senderAccount_ok getContract_ok getListing_ok setContract_ok
  invokeTransfer_ok Acts Action.party Action.sources Action.price Action.wager Action.Admits
  Action.written Action.payment Party.account Host.offering

theorem buyerRequestPurchase_ok {parameter : Option BuyerRequestPurchaseParameter}
    {id : UInt64} :
    (buyerRequestPurchase ctx amount parameter).run before = .ok id after ↔
      ∃ parameters, parameter = some parameters ∧
      ∃ listing, before.state.listings[asUsize parameters.item]? = some listing ∧
        amount = listing.itemValue ∧
      ∃ buyer, ctx.sender = .account buyer ∧
        { before with state := before.state.requested buyer parameters } = after ∧ id = 0 := by
  simp [buyerRequestPurchase, ContractState.requested]

theorem buyerAbort_ok {parameter : Option BuyAbortParameter} :
    (buyerAbort ctx parameter).run before = .ok () after ↔
      ∃ p, parameter = some p ∧ Acts (.abort p.item) ctx.sender 0 p.id before after := by
  simp [buyerAbort]

theorem buyerConfirmDelivery_ok {parameter : Option IdParameter} :
    (buyerConfirmDelivery ctx parameter).run before = .ok () after ↔
      ∃ p, parameter = some p ∧ Acts .confirmDelivery ctx.sender 0 p.id before after := by
  -- the listing is looked up after the state is written
  simp [buyerConfirmDelivery, and_left_comm]

theorem buyerDisputeDelivery_ok {parameter : Option BuyerIdCommitment} :
    (buyerDisputeDelivery ctx amount parameter).run before = .ok () after ↔
      ∃ p, parameter = some p ∧
        Acts (.disputeDelivery p.commitment) ctx.sender amount p.id before after := by
  simp [buyerDisputeDelivery, @eq_comm _ amount]

theorem buyerCallTimeout_ok {parameter : Option IdParameter} :
    (buyerCallTimeout ctx parameter).run before = .ok () after ↔
      ∃ p, parameter = some p ∧ Acts .buyerTimeout ctx.sender 0 p.id before after := by
  simp [buyerCallTimeout]

theorem buyerOpenCommitment_ok {parameter : Option BuyerOpenCommitmentParameter} :
    (buyerOpenCommitment ctx parameter).run before = .ok () after ↔
      ∃ p, parameter = some p ∧
        Acts (.openCommitment p.buyerBit) ctx.sender 0 p.id before after := by
  simp [buyerOpenCommitment, ite_invokeTransfer]

theorem sellerCallTimeout_ok {parameter : Option IdParameter} :
    (sellerCallTimeout ctx parameter).run before = .ok () after ↔
      ∃ p, parameter = some p ∧ Acts .sellerTimeout ctx.sender 0 p.id before after := by
  simp [sellerCallTimeout]

theorem sellerRejectContract_ok {parameter : Option IdParameter} :
    (sellerRejectContract ctx parameter).run before = .ok () after ↔
      ∃ p, parameter = some p ∧ Acts .rejectContract ctx.sender 0 p.id before after := by
  simp [sellerRejectContract]

theorem sellerAcceptContract_ok {parameter : Option IdParameter} :
    (sellerAcceptContract ctx parameter).run before = .ok () after ↔
      ∃ p, parameter = some p ∧ Acts .acceptContract ctx.sender 0 p.id before after := by
  simp [sellerAcceptContract]

theorem sellerItemWasDelivered_ok {parameter : Option IdParameter} :
    (sellerItemWasDelivered ctx parameter).run before = .ok () after ↔
      ∃ p, parameter = some p ∧ Acts .itemWasDelivered ctx.sender 0 p.id before after := by
  simp [sellerItemWasDelivered]

theorem sellerForfeitDispute_ok {parameter : Option IdParameter} :
    (sellerForfeitDispute ctx parameter).run before = .ok () after ↔
      ∃ p, parameter = some p ∧ Acts .forfeitDispute ctx.sender 0 p.id before after := by
  simp [sellerForfeitDispute]

theorem sellerCounterDispute_ok {parameter : Option SellerCounterDisputeParameter} :
    (sellerCounterDispute ctx amount parameter).run before = .ok () after ↔
      ∃ p, parameter = some p ∧
        Acts (.counterDispute p.randomBit) ctx.sender amount p.id before after := by
  simp [sellerCounterDispute]

theorem sellerUpdateListings_ok {parameter : Option SellerUpdateListingsParameter} :
    (sellerUpdateListings ctx parameter).run before = .ok () after ↔
      ∃ p, parameter = some p ∧ ctx.sender = .account before.state.vendor ∧
        before.state.contracts = [] ∧
        (∃ listing, before.state.listings[asUsize p.itemId]? = some listing) ∧
        { before with state := before.state.relisted p } = after := by
  simp [sellerUpdateListings, ContractState.relisted]

end Entrypoints

end SmartContracts.Commerce
