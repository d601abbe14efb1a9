import SmartContracts.Commerce.Calls
import SmartContracts.Semantics.Runs

namespace SmartContracts.Commerce

open SmartContracts.Chain SmartContracts.Semantics

/-! # The commerce contract as a machine

Transactions drive the contract from a state without purchases.  `Effect` lists
what a transaction that returns can do; the invariants that follow are proved
from it.
-/

inductive Call where
  | requestPurchase (parameter : Option BuyerRequestPurchaseParameter)
  | buyerAbort (parameter : Option BuyAbortParameter)
  | confirmDelivery (parameter : Option IdParameter)
  | disputeDelivery (parameter : Option BuyerIdCommitment)
  | buyerCallTimeout (parameter : Option IdParameter)
  | openCommitment (parameter : Option BuyerOpenCommitmentParameter)
  | sellerCallTimeout (parameter : Option IdParameter)
  | rejectContract (parameter : Option IdParameter)
  | acceptContract (parameter : Option IdParameter)
  | itemWasDelivered (parameter : Option IdParameter)
  | forfeitDispute (parameter : Option IdParameter)
  | counterDispute (parameter : Option SellerCounterDisputeParameter)
  | updateListings (parameter : Option SellerUpdateListingsParameter)

/-- The purchase a call names, and what it does there. -/
def Call.target : Call → Option (UInt64 × Action)
  | .requestPurchase _ => none
  | .buyerAbort parameter => parameter.map fun p => (p.id, .abort p.item)
  | .confirmDelivery parameter => parameter.map fun p => (p.id, .confirmDelivery)
  | .disputeDelivery parameter => parameter.map fun p => (p.id, .disputeDelivery p.commitment)
  | .buyerCallTimeout parameter => parameter.map fun p => (p.id, .buyerTimeout)
  | .openCommitment parameter => parameter.map fun p => (p.id, .openCommitment p.buyerBit)
  | .sellerCallTimeout parameter => parameter.map fun p => (p.id, .sellerTimeout)
  | .rejectContract parameter => parameter.map fun p => (p.id, .rejectContract)
  | .acceptContract parameter => parameter.map fun p => (p.id, .acceptContract)
  | .itemWasDelivered parameter => parameter.map fun p => (p.id, .itemWasDelivered)
  | .forfeitDispute parameter => parameter.map fun p => (p.id, .forfeitDispute)
  | .counterDispute parameter => parameter.map fun p => (p.id, .counterDispute p.randomBit)
  | .updateListings _ => none

structure Transaction where
  sender : Address
  slotTime : Timestamp
  amount : Amount
  call : Call

def Transaction.context (owner : AccountAddress) (tx : Transaction) : ReceiveContext :=
  { sender := tx.sender, owner, slotTime := tx.slotTime }

section Machine

variable (owner : AccountAddress)

/-- The host a transaction leaves, if its call returns. -/
def outcome (host : Host ContractState) (tx : Transaction) : Option (Host ContractState) :=
  let ctx := tx.context owner
  match tx.call with
  | .requestPurchase parameter =>
      host.returned tx.amount (buyerRequestPurchase ctx tx.amount parameter)
  | .buyerAbort parameter => host.returnedUnpaid tx.amount (buyerAbort ctx parameter)
  | .confirmDelivery parameter => host.returnedUnpaid tx.amount (buyerConfirmDelivery ctx parameter)
  | .disputeDelivery parameter =>
      host.returned tx.amount (buyerDisputeDelivery ctx tx.amount parameter)
  | .buyerCallTimeout parameter => host.returnedUnpaid tx.amount (buyerCallTimeout ctx parameter)
  | .openCommitment parameter => host.returnedUnpaid tx.amount (buyerOpenCommitment ctx parameter)
  | .sellerCallTimeout parameter => host.returnedUnpaid tx.amount (sellerCallTimeout ctx parameter)
  | .rejectContract parameter => host.returnedUnpaid tx.amount (sellerRejectContract ctx parameter)
  | .acceptContract parameter => host.returnedUnpaid tx.amount (sellerAcceptContract ctx parameter)
  | .itemWasDelivered parameter =>
      host.returnedUnpaid tx.amount (sellerItemWasDelivered ctx parameter)
  | .forfeitDispute parameter => host.returnedUnpaid tx.amount (sellerForfeitDispute ctx parameter)
  | .counterDispute parameter =>
      host.returned tx.amount (sellerCounterDispute ctx tx.amount parameter)
  | .updateListings parameter => host.returnedUnpaid tx.amount (sellerUpdateListings ctx parameter)

/-- A call that does not return is rolled back with its amount. -/
def step (host : Host ContractState) (tx : Transaction) : Host ContractState :=
  (outcome owner host tx).getD host

theorem step_cases (host : Host ContractState) (tx : Transaction) :
    step owner host tx = host ∨ outcome owner host tx = some (step owner host tx) := by
  unfold step
  cases outcome owner host tx with
  | none => exact .inl rfl
  | some after => exact .inr rfl

end Machine

inductive Effect (before : Host ContractState) (tx : Transaction) (after : Host ContractState) :
    Prop where
  | requested (parameters : BuyerRequestPurchaseParameter) (listing : Item)
      (buyer : AccountAddress) (call : tx.call = .requestPurchase (some parameters))
      (listed : before.state.listings[asUsize parameters.item]? = some listing)
      (priced : tx.amount = listing.itemValue) (account : tx.sender = .account buyer)
      (host : after = { before.receiving tx.amount with
        state := before.state.requested buyer parameters })
  | acted (id : UInt64) (action : Action) (target : tx.call.target = some (id, action))
      (acts : Acts action tx.sender tx.amount id (before.receiving tx.amount) after)
  | relisted (parameters : SellerUpdateListingsParameter)
      (call : tx.call = .updateListings (some parameters))
      (account : tx.sender = .account before.state.vendor) (unsold : before.state.contracts = [])
      (host : after = { before with state := before.state.relisted parameters })

/-- A call passes every check for editing a listing. -/
structure Relists (state : ContractState) (tx : Transaction)
    (parameters : SellerUpdateListingsParameter) : Prop where
  call : tx.call = .updateListings (some parameters)
  unpaid : tx.amount = 0
  vendor : tx.sender = .account state.vendor
  unsold : state.contracts = []
  listed : ∃ listing, state.listings[asUsize parameters.itemId]? = some listing

section Effects

variable {owner : AccountAddress} {before after : Host ContractState} {tx : Transaction}

private theorem acted_of_returned {entrypoint : Receive Errors ContractState Unit}
    {α : Type} {parameter : Option α} {id : α → UInt64} {action : α → Action}
    (spec : ∀ {after}, entrypoint.run (before.receiving tx.amount) = .ok () after ↔
      ∃ p, parameter = some p ∧
        Acts (action p) tx.sender tx.amount (id p) (before.receiving tx.amount) after)
    (target : tx.call.target = parameter.map fun p => (id p, action p))
    (returned : before.returned tx.amount entrypoint = some after) : Effect before tx after := by
  obtain ⟨_, returned⟩ := Host.returned_eq_some.mp returned
  obtain ⟨p, rfl, acts⟩ := spec.mp returned
  exact .acted (id p) (action p) target acts

private theorem acted_of_returnedUnpaid {entrypoint : Receive Errors ContractState Unit}
    {α : Type} {parameter : Option α} {id : α → UInt64} {action : α → Action}
    (spec : ∀ {after}, entrypoint.run before = .ok () after ↔
      ∃ p, parameter = some p ∧ Acts (action p) tx.sender 0 (id p) before after)
    (target : tx.call.target = parameter.map fun p => (id p, action p))
    (returned : before.returnedUnpaid tx.amount entrypoint = some after) :
    Effect before tx after := by
  obtain ⟨unpaid, _, returned⟩ := Host.returnedUnpaid_eq_some.mp returned
  obtain ⟨p, rfl, acts⟩ := spec.mp returned
  exact .acted (id p) (action p) target (by rwa [unpaid])

theorem effect_of_outcome (returned : outcome owner before tx = some after) :
    Effect before tx after := by
  cases call : tx.call with
  | requestPurchase parameter =>
      simp only [outcome, call] at returned
      obtain ⟨id, returned⟩ := Host.returned_eq_some.mp returned
      obtain ⟨parameters, parsed, listing, listed, priced, buyer, account, host, _⟩ :=
        buyerRequestPurchase_ok.mp returned
      exact .requested parameters listing buyer (parsed ▸ call) listed priced account host.symm
  | updateListings parameter =>
      simp only [outcome, call] at returned
      obtain ⟨_, _, returned⟩ := Host.returnedUnpaid_eq_some.mp returned
      obtain ⟨parameters, parsed, account, unsold, _, host⟩ := sellerUpdateListings_ok.mp returned
      exact .relisted parameters (parsed ▸ call) account unsold host.symm
  | disputeDelivery parameter =>
      exact acted_of_returned buyerDisputeDelivery_ok (congrArg Call.target call)
        (by simpa only [outcome, call] using returned)
  | counterDispute parameter =>
      exact acted_of_returned sellerCounterDispute_ok (congrArg Call.target call)
        (by simpa only [outcome, call] using returned)
  | buyerAbort parameter =>
      exact acted_of_returnedUnpaid buyerAbort_ok (congrArg Call.target call)
        (by simpa only [outcome, call] using returned)
  | confirmDelivery parameter =>
      exact acted_of_returnedUnpaid buyerConfirmDelivery_ok (congrArg Call.target call)
        (by simpa only [outcome, call] using returned)
  | buyerCallTimeout parameter =>
      exact acted_of_returnedUnpaid buyerCallTimeout_ok (congrArg Call.target call)
        (by simpa only [outcome, call] using returned)
  | openCommitment parameter =>
      exact acted_of_returnedUnpaid buyerOpenCommitment_ok (congrArg Call.target call)
        (by simpa only [outcome, call] using returned)
  | sellerCallTimeout parameter =>
      exact acted_of_returnedUnpaid sellerCallTimeout_ok (congrArg Call.target call)
        (by simpa only [outcome, call] using returned)
  | rejectContract parameter =>
      exact acted_of_returnedUnpaid sellerRejectContract_ok (congrArg Call.target call)
        (by simpa only [outcome, call] using returned)
  | acceptContract parameter =>
      exact acted_of_returnedUnpaid sellerAcceptContract_ok (congrArg Call.target call)
        (by simpa only [outcome, call] using returned)
  | itemWasDelivered parameter =>
      exact acted_of_returnedUnpaid sellerItemWasDelivered_ok (congrArg Call.target call)
        (by simpa only [outcome, call] using returned)
  | forfeitDispute parameter =>
      exact acted_of_returnedUnpaid sellerForfeitDispute_ok (congrArg Call.target call)
        (by simpa only [outcome, call] using returned)

private theorem outcome_acted {entrypoint : Receive Errors ContractState Unit}
    {α : Type} {parameter : Option α} {id : α → UInt64} {action : α → Action}
    (spec : ∀ {after}, entrypoint.run (before.receiving tx.amount) = .ok () after ↔
      ∃ p, parameter = some p ∧
        Acts (action p) tx.sender tx.amount (id p) (before.receiving tx.amount) after)
    {named : UInt64} {acting : Action}
    (target : parameter.map (fun p => (id p, action p)) = some (named, acting))
    (acts : Acts acting tx.sender tx.amount named (before.receiving tx.amount) after) :
    before.returned tx.amount entrypoint = some after := by
  obtain ⟨p, given, same⟩ := Option.map_eq_some_iff.mp target
  cases same
  exact Host.returned_eq_some.mpr ⟨(), spec.mpr ⟨p, given, acts⟩⟩

private theorem outcome_actedUnpaid {entrypoint : Receive Errors ContractState Unit}
    {α : Type} {parameter : Option α} {id : α → UInt64} {action : α → Action}
    (spec : ∀ {after}, entrypoint.run before = .ok () after ↔
      ∃ p, parameter = some p ∧ Acts (action p) tx.sender 0 (id p) before after)
    (free : ∀ p price, (action p).wager price = 0)
    {named : UInt64} {acting : Action}
    (target : parameter.map (fun p => (id p, action p)) = some (named, acting))
    (acts : Acts acting tx.sender tx.amount named (before.receiving tx.amount) after) :
    before.returnedUnpaid tx.amount entrypoint = some after := by
  obtain ⟨p, given, same⟩ := Option.map_eq_some_iff.mp target
  cases same
  have unpaid : tx.amount = 0 := by
    obtain ⟨_, _, price, _, _, _, wager, _⟩ := acts
    exact wager.trans (free p price)
  rw [unpaid] at acts
  exact Host.returnedUnpaid_eq_some.mpr ⟨unpaid, (), spec.mpr ⟨p, given, acts⟩⟩

/-- A call that names a purchase returns just when it acts on it. -/
theorem outcome_target {id : UInt64} {action : Action}
    (target : tx.call.target = some (id, action)) :
    outcome owner before tx = some after ↔
      Acts action tx.sender tx.amount id (before.receiving tx.amount) after := by
  constructor
  · intro returned
    cases effect_of_outcome returned with
    | requested _ _ _ call => cases target.symm.trans (congrArg Call.target call)
    | relisted _ call => cases target.symm.trans (congrArg Call.target call)
    | acted _ _ named acts =>
        cases Option.some.inj (target.symm.trans named)
        exact acts
  · intro acts
    cases call : tx.call with
    | requestPurchase parameter => cases target.symm.trans (congrArg Call.target call)
    | updateListings parameter => cases target.symm.trans (congrArg Call.target call)
    | disputeDelivery parameter =>
        rw [call] at target
        simp only [outcome, call]
        exact outcome_acted buyerDisputeDelivery_ok target acts
    | counterDispute parameter =>
        rw [call] at target
        simp only [outcome, call]
        exact outcome_acted sellerCounterDispute_ok target acts
    | buyerAbort parameter =>
        rw [call] at target
        simp only [outcome, call]
        exact outcome_actedUnpaid buyerAbort_ok (fun _ _ => rfl) target acts
    | confirmDelivery parameter =>
        rw [call] at target
        simp only [outcome, call]
        exact outcome_actedUnpaid buyerConfirmDelivery_ok (fun _ _ => rfl) target acts
    | buyerCallTimeout parameter =>
        rw [call] at target
        simp only [outcome, call]
        exact outcome_actedUnpaid buyerCallTimeout_ok (fun _ _ => rfl) target acts
    | openCommitment parameter =>
        rw [call] at target
        simp only [outcome, call]
        exact outcome_actedUnpaid buyerOpenCommitment_ok (fun _ _ => rfl) target acts
    | sellerCallTimeout parameter =>
        rw [call] at target
        simp only [outcome, call]
        exact outcome_actedUnpaid sellerCallTimeout_ok (fun _ _ => rfl) target acts
    | rejectContract parameter =>
        rw [call] at target
        simp only [outcome, call]
        exact outcome_actedUnpaid sellerRejectContract_ok (fun _ _ => rfl) target acts
    | acceptContract parameter =>
        rw [call] at target
        simp only [outcome, call]
        exact outcome_actedUnpaid sellerAcceptContract_ok (fun _ _ => rfl) target acts
    | itemWasDelivered parameter =>
        rw [call] at target
        simp only [outcome, call]
        exact outcome_actedUnpaid sellerItemWasDelivered_ok (fun _ _ => rfl) target acts
    | forfeitDispute parameter =>
        rw [call] at target
        simp only [outcome, call]
        exact outcome_actedUnpaid sellerForfeitDispute_ok (fun _ _ => rfl) target acts

theorem outcome_relists {parameters : SellerUpdateListingsParameter}
    (call : tx.call = .updateListings (some parameters)) :
    outcome owner before tx = some after ↔
      Relists before.state tx parameters ∧
        after = { before with state := before.state.relisted parameters } := by
  simp only [outcome, call, Host.returnedUnpaid_eq_some]
  constructor
  · intro returned
    obtain ⟨unpaid, _, returned⟩ := returned
    obtain ⟨_, same, vendor, unsold, listed, host⟩ := sellerUpdateListings_ok.mp returned
    cases same
    exact ⟨⟨call, unpaid, vendor, unsold, listed⟩, host.symm⟩
  · intro relisted
    obtain ⟨relists, host⟩ := relisted
    exact ⟨relists.unpaid, (), sellerUpdateListings_ok.mpr
      ⟨parameters, rfl, relists.vendor, relists.unsold, relists.listed, host.symm⟩⟩

end Effects

/-! ## What holds of every purchase -/

/-- Every purchase is stored as one of the first listing, which stays listed. -/
structure Stored (state : ContractState) : Prop where
  item : ∀ purchase ∈ state.contracts, purchase.item = 0
  listed : state.contracts ≠ [] → ∃ first, state.listings[0]? = some first

namespace Stored

variable {owner : AccountAddress} {state : ContractState} {before after : Host ContractState}
  {tx : Transaction}

theorem listing (stored : Stored state) {position : ℕ} {purchase : Purchase}
    (found : state.contracts[position]? = some purchase) :
    ∃ first, state.listings[0]? = some first ∧
      state.listings[asUsize purchase.item]? = some first := by
  have member := List.mem_of_getElem? found
  obtain ⟨first, listed⟩ := stored.listed (List.ne_nil_of_mem member)
  refine ⟨first, listed, ?_⟩
  rw [stored.item purchase member]
  exact listed

theorem effect (stored : Stored before.state) (effect : Effect before tx after) :
    Stored after.state := by
  cases effect with
  | requested parameters listing buyer _ listed _ _ host =>
      subst host
      refine ⟨fun purchase member => ?_, fun _ => ?_⟩
      · rcases List.mem_append.mp member with old | new
        · exact stored.item purchase old
        · rw [List.mem_singleton.mp new]
      · have inside : 0 < before.state.listings.length :=
          Nat.zero_lt_of_lt (List.getElem?_eq_some_iff.mp listed).1
        exact ⟨_, List.getElem?_eq_getElem inside⟩
  | acted id action _ acts =>
      obtain ⟨purchase, found, _, _, _, _, _, _, rfl⟩ := acts
      have member := List.mem_of_getElem? found
      rw [Host.offering_state]
      refine ⟨fun other inside => ?_, fun _ => stored.listed (List.ne_nil_of_mem member)⟩
      rcases List.mem_or_eq_of_mem_set inside with old | rfl
      · exact stored.item other old
      · rw [Action.written_item, stored.item purchase member]
  | relisted parameters _ _ unsold host =>
      subst host
      refine ⟨fun purchase member => ?_, fun sold => absurd unsold sold⟩
      rw [ContractState.relisted, unsold] at member
      cases member

end Stored

theorem run_stored {owner : AccountAddress} {start : Host ContractState}
    (unsold : start.state.contracts = []) (txs : List Transaction) :
    Stored (run (step owner) start txs).state := by
  have initially : Stored start.state := by
    refine ⟨fun purchase member => ?_, fun sold => absurd unsold sold⟩
    rw [unsold] at member
    cases member
  refine @run_invariant _ _ (step owner) (fun host => Stored host.state) start initially ?_ txs
  intro host tx stored
  rcases step_cases owner host tx with same | returned
  · rw [same]
    exact stored
  · exact stored.effect (effect_of_outcome returned)

end SmartContracts.Commerce
