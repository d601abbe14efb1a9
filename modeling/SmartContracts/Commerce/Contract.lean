import SmartContracts.Chain.Host

namespace SmartContracts.Commerce

open SmartContracts.Chain SmartContracts.Semantics

/-! # The commerce contract

A vendor sells from a list of items.  A buyer pays when requesting a purchase;
a delivery the buyer disputes is settled by a wager from either side and one
random bit from each.  All purchases share the balance of the contract.
-/

inductive State where
  | null
  | requested
  | accepted
  | rejected
  | delivered
  | completed
  | dispute
  | counter
  | failed
deriving DecidableEq

structure Item where
  itemValue : UInt64
  description : String
deriving DecidableEq

/-- A single purchase by a buyer. -/
structure Purchase where
  -- commitment to buyer random bit
  commit : UInt64
  -- the last activity recorded, for timeouts
  timestamp : Timestamp
  item : UInt64
  sellerBit : Bool
  notes : String
  state : State
  buyer : AccountAddress
deriving DecidableEq

structure ContractState where
  vendor : AccountAddress
  timeout : UInt64
  contracts : List Purchase
  listings : List Item
deriving DecidableEq

inductive Errors where
  | parameterError
  | transferError
  | parseError
  | matchingAccountError
  | stateError
  | matchingItemError
  | matchingItemValueError
  | timestampError
  | commitError
  | programmerError
  | amountError
deriving DecidableEq

/-- The error of the entrypoints without errors of their own. -/
structure Reject where
  errorCode : Int32
deriving DecidableEq

def Reject.default : Reject := ⟨Int32.minValue⟩

def Reject.ofParseError : Reject := ⟨Int32.minValue + 2⟩

structure InitParameter where
  vendor : AccountAddress
  timeout : UInt64

structure BuyerRequestPurchaseParameter where
  info : String
  timestamp : UInt64
  item : UInt64

structure IdParameter where
  id : UInt64

structure BuyAbortParameter where
  id : UInt64
  item : UInt64

structure BuyerIdCommitment where
  id : UInt64
  commitment : UInt64

structure BuyerOpenCommitmentParameter where
  id : UInt64
  buyerBit : Bool
  nonce : UInt64

structure SellerCounterDisputeParameter where
  id : UInt64
  randomBit : Bool

structure SellerUpdateListingsParameter where
  itemId : UInt64
  description : String
  value : UInt64

def tsfix (t : Timestamp) : Timestamp := t + 10

def commerceInit (parameter : Option InitParameter) : Except Reject ContractState :=
  match parameter with
  | none => .error .ofParseError
  | some parameter =>
      if parameter.timeout > 0 then
        .ok { vendor := parameter.vendor, timeout := parameter.timeout, contracts := [],
              listings := [] }
      else .error .default

section Access

variable {ε : Type}

/-- `contracts.get_mut(id).unwrap()` -/
def getContract (id : UInt64) : Receive ε ContractState Purchase := do
  let state ← Receive.state
  Receive.unwrapAbort state.contracts[asUsize id]?

/-- `listings.get(item).unwrap()` -/
def getListing (item : UInt64) : Receive ε ContractState Item := do
  let state ← Receive.state
  Receive.unwrapAbort state.listings[asUsize item]?

/-- A write through the reference that `get_mut` gave. -/
def setContract (id : UInt64) (contract : Purchase) : Receive ε ContractState Unit := do
  let state ← Receive.state
  Receive.setState { state with contracts := state.contracts.set (asUsize id) contract }

/-- `host.invoke_transfer` with its result dropped. -/
def invokeTransfer (receiver : AccountAddress) (amount : Amount) :
    Receive ε ContractState Unit := do
  let _ ← Receive.invokeTransfer receiver amount
  return ()

end Access

/-! ## Buyer functions -/

def buyerRequestPurchase (ctx : ReceiveContext) (amount : Amount)
    (parameter : Option BuyerRequestPurchaseParameter) : Receive Reject ContractState UInt64 := do
  let parameters ← Receive.getParameter parameter .ofParseError
  let listing ← getListing parameters.item
  -- must pay correct amount
  Receive.ensure (amount = listing.itemValue) .default
  let sender ← Receive.senderAccount ctx .default
  let state ← Receive.state
  Receive.setState { state with
    contracts := state.contracts ++ [{
      commit := 0
      timestamp := parameters.timestamp
      -- not the item of the parameter
      item := 0
      sellerBit := false
      notes := parameters.info
      state := .requested
      buyer := sender }] }
  -- a dummy id, whatever the place of the purchase
  return 0

def buyerAbort (ctx : ReceiveContext) (parameter : Option BuyAbortParameter) :
    Receive Errors ContractState Unit := do
  let parameters ← Receive.getParameter parameter .parseError
  let contract ← getContract parameters.id
  -- the item of the parameter, not of the purchase
  let listing ← getListing parameters.item
  Receive.ensure (ctx.sender.matchesAccount contract.buyer) .matchingAccountError
  -- can only abort before the vendor has interacted with the purchase
  Receive.ensure (contract.state = .requested) .stateError
  setContract parameters.id { contract with state := .failed }
  invokeTransfer contract.buyer listing.itemValue

def buyerConfirmDelivery (ctx : ReceiveContext) (parameter : Option IdParameter) :
    Receive Errors ContractState Unit := do
  let parameters ← Receive.getParameter parameter .parseError
  let contract ← getContract parameters.id
  Receive.ensure (ctx.sender.matchesAccount contract.buyer) .matchingAccountError
  -- can only confirm after the vendor has claimed delivery
  Receive.ensure (contract.state = .delivered) .stateError
  setContract parameters.id { contract with state := .completed }
  let listing ← getListing contract.item
  let state ← Receive.state
  invokeTransfer state.vendor listing.itemValue

def buyerDisputeDelivery (ctx : ReceiveContext) (amount : Amount)
    (parameter : Option BuyerIdCommitment) : Receive Errors ContractState Unit := do
  let parameters ← Receive.getParameter parameter .parseError
  let contract ← getContract parameters.id
  let listing ← getListing contract.item
  Receive.ensure (ctx.sender.matchesAccount contract.buyer) .matchingAccountError
  Receive.ensure (contract.state = .delivered) .stateError
  -- has to wager same value as transaction
  Receive.ensure (listing.itemValue = amount) .matchingItemValueError
  setContract parameters.id { contract with
    state := .dispute
    commit := parameters.commitment
    timestamp := tsfix contract.timestamp }

/-- Buyer calls timeout and receives back the money in the contract. -/
def buyerCallTimeout (ctx : ReceiveContext) (parameter : Option IdParameter) :
    Receive Errors ContractState Unit := do
  let parameters ← Receive.getParameter parameter .parseError
  let contract ← getContract parameters.id
  let listing ← getListing contract.item
  Receive.ensure (ctx.sender.matchesAccount contract.buyer) .matchingAccountError
  Receive.ensure (contract.state = .dispute ∨ contract.state = .accepted) .stateError
  let state ← Receive.state
  -- both sides start from the stored timestamp: the clock is never read
  Receive.ensure (tsfix contract.timestamp > contract.timestamp + state.timeout) .timestampError
  let payback := if contract.state = .dispute then listing.itemValue * 2 else listing.itemValue
  setContract parameters.id { contract with state := .failed }
  invokeTransfer contract.buyer payback

def buyerOpenCommitment (ctx : ReceiveContext)
    (parameter : Option BuyerOpenCommitmentParameter) : Receive Errors ContractState Unit := do
  let parameters ← Receive.getParameter parameter .parseError
  let contract ← getContract parameters.id
  let listing ← getListing contract.item
  let state ← Receive.state
  Receive.ensure (ctx.sender.matchesAccount contract.buyer) .stateError
  -- can only open commitment if seller has countered
  Receive.ensure (contract.state = .counter) .stateError
  -- check that commit is 0
  Receive.ensure (contract.commit = 0) .commitError
  setContract parameters.id { contract with state := .failed }
  let amountToTransfer := 2 * listing.itemValue
  if contract.sellerBit ≠ parameters.buyerBit then
    -- seller wins
    invokeTransfer state.vendor amountToTransfer
  else
    invokeTransfer contract.buyer amountToTransfer

/-! ## Seller functions -/

def sellerCallTimeout (ctx : ReceiveContext) (parameter : Option IdParameter) :
    Receive Errors ContractState Unit := do
  let parameters ← Receive.getParameter parameter .parseError
  let contract ← getContract parameters.id
  let listing ← getListing contract.item
  let state ← Receive.state
  Receive.ensure (ctx.sender.matchesAccount state.vendor) .matchingAccountError
  -- the buyer has not responded to delivery or does not open their commitment
  Receive.ensure (contract.state = .delivered ∨ contract.state = .counter) .stateError
  Receive.ensure (tsfix contract.timestamp > contract.timestamp + state.timeout) .timestampError
  setContract parameters.id { contract with state := .completed }
  invokeTransfer state.vendor listing.itemValue

def sellerRejectContract (ctx : ReceiveContext) (parameter : Option IdParameter) :
    Receive Errors ContractState Unit := do
  let parameters ← Receive.getParameter parameter .parseError
  let contract ← getContract parameters.id
  let listing ← getListing contract.item
  let state ← Receive.state
  Receive.ensure (ctx.sender.matchesAccount state.vendor) .matchingAccountError
  -- can only reject contract when buyer has requested
  Receive.ensure (contract.state = .requested) .stateError
  setContract parameters.id { contract with state := .rejected }
  invokeTransfer contract.buyer listing.itemValue

def sellerAcceptContract (ctx : ReceiveContext) (parameter : Option IdParameter) :
    Receive Errors ContractState Unit := do
  let parameters ← Receive.getParameter parameter .parseError
  let contract ← getContract parameters.id
  let state ← Receive.state
  Receive.ensure (ctx.sender.matchesAccount state.vendor) .matchingAccountError
  Receive.ensure (contract.state = .requested) .stateError
  setContract parameters.id { contract with
    state := .accepted
    timestamp := tsfix contract.timestamp }

def sellerItemWasDelivered (ctx : ReceiveContext) (parameter : Option IdParameter) :
    Receive Errors ContractState Unit := do
  let parameters ← Receive.getParameter parameter .parseError
  let contract ← getContract parameters.id
  let state ← Receive.state
  Receive.ensure (ctx.sender.matchesAccount state.vendor) .matchingAccountError
  Receive.ensure (contract.state = .accepted) .stateError
  setContract parameters.id { contract with
    state := .delivered
    timestamp := tsfix contract.timestamp }

def sellerForfeitDispute (ctx : ReceiveContext) (parameter : Option IdParameter) :
    Receive Errors ContractState Unit := do
  let parameters ← Receive.getParameter parameter .parseError
  let contract ← getContract parameters.id
  let listing ← getListing contract.item
  let state ← Receive.state
  Receive.ensure (ctx.sender.matchesAccount state.vendor) .matchingAccountError
  Receive.ensure (contract.state = .dispute) .stateError
  setContract parameters.id { contract with state := .failed }
  invokeTransfer contract.buyer (listing.itemValue * 2)

def sellerCounterDispute (ctx : ReceiveContext) (amount : Amount)
    (parameter : Option SellerCounterDisputeParameter) : Receive Errors ContractState Unit := do
  let parameters ← Receive.getParameter parameter .parseError
  let contract ← getContract parameters.id
  let state ← Receive.state
  let listing ← getListing contract.item
  Receive.ensure (ctx.sender.matchesAccount state.vendor) .matchingAccountError
  Receive.ensure (contract.state = .dispute) .stateError
  -- seller has to wager the value of the item
  Receive.ensure (amount = listing.itemValue) .matchingItemValueError
  setContract parameters.id { contract with
    state := .counter
    timestamp := tsfix contract.timestamp
    sellerBit := parameters.randomBit }

def sellerUpdateListings (ctx : ReceiveContext)
    (parameter : Option SellerUpdateListingsParameter) : Receive Errors ContractState Unit := do
  let parameters ← Receive.getParameter parameter .parseError
  let state ← Receive.state
  Receive.ensure (ctx.sender.matchesAccount state.vendor) .matchingAccountError
  -- no price changes once anything has been requested
  Receive.ensure (state.contracts.length = 0) .stateError
  let _ ← getListing parameters.itemId
  Receive.setState { state with
    listings := state.listings.set (asUsize parameters.itemId) {
      itemValue := parameters.value * 10 ^ 9
      description := parameters.description } }

end SmartContracts.Commerce
