import SmartContracts.Commerce.Transfers
import SmartContracts.Data.Words

namespace SmartContracts.Commerce

open SmartContracts.Chain SmartContracts.Semantics SmartContracts.Data

/-! # Arithmetic on words

Prices, timestamps and the timeout are 64-bit words that the contract adds and
multiplies without a check.  A call computes in numbers what it computes in
words just where its operands leave room.
-/

namespace Action

/-- The sums and products a call of the entrypoint forms when it returns. -/
def operations (state : ContractState) (purchase : Purchase) (price : UInt64) :
    Action → List Operation
  | disputeDelivery _ | counterDispute _ | acceptContract | itemWasDelivered =>
      [.add purchase.timestamp 10]
  | buyerTimeout =>
      [.add purchase.timestamp 10, .add purchase.timestamp state.timeout] ++
        if purchase.state = .dispute then [.mul price 2] else []
  | sellerTimeout => [.add purchase.timestamp 10, .add purchase.timestamp state.timeout]
  | openCommitment _ => [.mul 2 price]
  | forfeitDispute => [.mul price 2]
  | abort _ | confirmDelivery | rejectContract => []

/-- The operands leave room: no price from 2^63 on is doubled, and nothing is
added to a timestamp that it does not hold. -/
def Fits (state : ContractState) (purchase : Purchase) (price : UInt64) : Action → Prop
  | disputeDelivery _ | counterDispute _ | acceptContract | itemWasDelivered =>
      purchase.timestamp.toNat + 10 < 2 ^ 64
  | buyerTimeout =>
      purchase.timestamp.toNat + max 10 state.timeout.toNat < 2 ^ 64 ∧
        (purchase.state = .dispute → price.toNat < 2 ^ 63)
  | sellerTimeout => purchase.timestamp.toNat + max 10 state.timeout.toNat < 2 ^ 64
  | openCommitment _ | forfeitDispute => price.toNat < 2 ^ 63
  | abort _ | confirmDelivery | rejectContract => True

/-- How often a payment has the price in it. -/
def shares (purchase : Purchase) : Action → ℕ
  | buyerTimeout => if purchase.state = .dispute then 2 else 1
  | openCommitment _ | forfeitDispute => 2
  | _ => 1

variable {action : Action} {state : ContractState} {purchase : Purchase} {price : UInt64}

theorem exact_iff_fits :
    (∀ operation ∈ action.operations state purchase price, operation.Exact) ↔
      action.Fits state purchase price := by
  have ten : (10 : UInt64).toNat = 10 := rfl
  have two : (2 : UInt64).toNat = 2 := rfl
  cases action with
  | buyerTimeout =>
      by_cases dispute : purchase.state = .dispute
      · simp only [operations, dispute, if_true, List.cons_append, List.nil_append,
          List.forall_mem_cons, Operation.exact_iff, Operation.value, ten, two, Fits, true_implies]
        simp only [List.not_mem_nil, false_implies, implies_true, and_true]
        omega
      · simp only [operations, dispute, if_false, List.append_nil, List.forall_mem_cons,
          Operation.exact_iff, Operation.value, ten, Fits, false_implies]
        simp only [List.not_mem_nil, false_implies, implies_true, and_true]
        omega
  | disputeDelivery | counterDispute | acceptContract | itemWasDelivered =>
      simp only [operations, List.forall_mem_singleton, Operation.exact_iff, Operation.value, ten,
        Fits]
  | sellerTimeout =>
      simp only [operations, List.forall_mem_cons, Operation.exact_iff, Operation.value, ten, Fits,
        List.not_mem_nil, false_implies, implies_true, and_true]
      omega
  | openCommitment | forfeitDispute =>
      simp only [operations, List.forall_mem_singleton, Operation.exact_iff, Operation.value, two,
        Fits]
      omega
  | abort | confirmDelivery | rejectContract => simp [operations, Fits]

theorem payment_shares {payment : AccountAddress × Amount}
    (fits : action.Fits state purchase price)
    (owed : action.payment state purchase price = some payment) :
    payment.2.toNat = action.shares purchase * price.toNat := by
  have exact := exact_iff_fits.mpr fits
  cases action with
  | abort | confirmDelivery | rejectContract | sellerTimeout =>
      cases owed
      exact (one_mul _).symm
  | buyerTimeout =>
      cases owed
      by_cases dispute : purchase.state = .dispute
      · have doubled : (Operation.mul price 2).Exact := exact _ (by simp [operations, dispute])
        simp only [dispute, if_true, shares]
        exact doubled.trans (Nat.mul_comm _ _)
      · simp only [dispute, if_false, shares, one_mul]
  | openCommitment =>
      cases owed
      exact exact (.mul 2 price) (List.mem_singleton_self _)
  | forfeitDispute =>
      cases owed
      exact (exact (.mul price 2) (List.mem_singleton_self _)).trans (Nat.mul_comm _ _)
  | disputeDelivery | counterDispute | acceptContract | itemWasDelivered => cases owed

theorem written_timestamp (fits : action.Fits state purchase price) :
    purchase.timestamp ≤ (action.written purchase).timestamp := by
  have exact := exact_iff_fits.mpr fits
  cases action with
  | disputeDelivery | counterDispute | acceptContract | itemWasDelivered =>
      have later : (purchase.timestamp + 10).toNat = purchase.timestamp.toNat + 10 :=
        exact (.add purchase.timestamp 10) (List.mem_singleton_self _)
      rw [UInt64.le_iff_toNat_le]
      exact later.symm ▸ Nat.le_add_right _ _
  | abort | confirmDelivery | buyerTimeout | openCommitment | sellerTimeout | rejectContract
  | forfeitDispute => exact UInt64.le_refl purchase.timestamp

end Action

/-- A call on a purchase passes every check. -/
structure Passes (state : ContractState) (tx : Transaction) (id : UInt64) (action : Action)
    (purchase : Purchase) (price : UInt64) : Prop where
  target : tx.call.target = some (id, action)
  found : state.contracts[asUsize id]? = some purchase
  quoted : action.price state purchase = some price
  party : tx.sender = .account (action.party.account state purchase)
  stage : purchase.state ∈ action.sources
  wager : tx.amount = action.wager price
  admits : action.Admits state purchase

variable {owner : AccountAddress} {host after : Host ContractState} {tx : Transaction}
  {id : UInt64} {action : Action} {parameters : SellerUpdateListingsParameter}

theorem outcome_passes (target : tx.call.target = some (id, action)) :
    outcome owner host tx = some after ↔
      ∃ purchase price, Passes host.state tx id action purchase price ∧
        after = Host.offering
          { host.receiving tx.amount with
            state := host.state.withContract id (action.written purchase) }
          (action.payment host.state purchase price) := by
  rw [outcome_target target]
  constructor
  · intro acts
    obtain ⟨purchase, found, price, quoted, party, stage, wager, admits, host⟩ := acts
    exact ⟨purchase, price, ⟨target, found, quoted, party, stage, wager, admits⟩, host⟩
  · intro passing
    obtain ⟨purchase, price, passes, host⟩ := passing
    exact ⟨purchase, passes.found, price, passes.quoted, passes.party, passes.stage, passes.wager,
      passes.admits, host⟩

/-- If the call returns, it has computed in numbers what it has computed in words. -/
def Exact (owner : AccountAddress) (host : Host ContractState) (tx : Transaction) : Prop :=
  (outcome owner host tx).isSome →
    (∀ id action purchase price, tx.call.target = some (id, action) →
      host.state.contracts[asUsize id]? = some purchase →
      action.price host.state purchase = some price →
      ∀ operation ∈ action.operations host.state purchase price, operation.Exact) ∧
    ∀ parameters, tx.call = .updateListings (some parameters) →
      (Operation.mul parameters.value (10 ^ 9)).Exact

/-- If the call passes its checks, its operands leave room. -/
def Fits (host : Host ContractState) (tx : Transaction) : Prop :=
  (∀ id action purchase price, Passes host.state tx id action purchase price →
    action.Fits host.state purchase price) ∧
  ∀ parameters, Relists host.state tx parameters → parameters.value.toNat ≤ 18446744073

theorem relisted_exact_iff {value : UInt64} :
    (Operation.mul value (10 ^ 9)).Exact ↔ value.toNat ≤ 18446744073 := by
  have factor : ((10 : UInt64) ^ 9).toNat = 10 ^ 9 := rfl
  rw [Operation.exact_iff, Operation.value, factor]
  omega

theorem exact_iff_fits : Exact owner host tx ↔ Fits host tx := by
  constructor
  · intro exact
    refine ⟨fun id action purchase price passes => ?_, fun parameters relists => ?_⟩
    · have returned := (@outcome_passes owner host _ tx id action passes.target).mpr
        ⟨purchase, price, passes, rfl⟩
      exact Action.exact_iff_fits.mp ((exact (Option.isSome_of_eq_some returned)).1 id action
        purchase price passes.target passes.found passes.quoted)
    · have returned := (@outcome_relists owner host _ tx parameters relists.call).mpr
        ⟨relists, rfl⟩
      exact relisted_exact_iff.mp
        ((exact (Option.isSome_of_eq_some returned)).2 parameters relists.call)
  · intro fits returns
    obtain ⟨after, returned⟩ := Option.isSome_iff_exists.mp returns
    refine ⟨fun id action purchase price target found quoted => ?_, fun parameters call => ?_⟩
    · obtain ⟨other, otherPrice, passes, _⟩ := (outcome_passes target).mp returned
      cases Option.some.inj (found.symm.trans passes.found)
      cases Option.some.inj (quoted.symm.trans passes.quoted)
      exact Action.exact_iff_fits.mpr (fits.1 id action purchase price passes)
    · exact relisted_exact_iff.mpr (fits.2 parameters ((outcome_relists call).mp returned).1)

/-- Purchases stay, and their timestamps never go backwards. -/
def Forward (before after : ContractState) : Prop :=
  ∀ (position : ℕ) (purchase : Purchase), before.contracts[position]? = some purchase →
    ∃ kept, after.contracts[position]? = some kept ∧ purchase.timestamp ≤ kept.timestamp

namespace Forward

theorem refl (state : ContractState) : Forward state state :=
  fun _ purchase found => ⟨purchase, found, UInt64.le_refl _⟩

theorem trans {before middle after : ContractState} (first : Forward before middle)
    (last : Forward middle after) : Forward before after := by
  intro position purchase found
  obtain ⟨kept, located, later⟩ := first position purchase found
  obtain ⟨final, ending, latest⟩ := last position kept located
  exact ⟨final, ending, UInt64.le_trans later latest⟩

end Forward

/-- What a call that returns stores and pays, in numbers. -/
def Computes (owner : AccountAddress) (host : Host ContractState) (tx : Transaction) : Prop :=
  ∀ after, outcome owner host tx = some after →
    Forward host.state after.state ∧
    (∀ parameters, tx.call = .updateListings (some parameters) →
      ∃ listing, after.state.listings[asUsize parameters.itemId]? = some listing ∧
        listing.itemValue.toNat = parameters.value.toNat * 10 ^ 9) ∧
    ∀ id action, tx.call.target = some (id, action) →
      ∃ purchase price payments, host.state.contracts[asUsize id]? = some purchase ∧
        action.price host.state purchase = some price ∧
        after.attempted = host.attempted ++ payments ∧
        ∀ payment ∈ payments, payment.2.toNat = action.shares purchase * price.toNat

theorem Fits.forward (fits : Fits host tx) (returned : outcome owner host tx = some after) :
    Forward host.state after.state := by
  cases effect_of_outcome returned with
  | requested _ _ _ _ _ _ _ same =>
      rw [same]
      intro position purchase found
      refine ⟨purchase, ?_, UInt64.le_refl _⟩
      rw [ContractState.requested, List.getElem?_append_left (List.getElem?_eq_some_iff.mp found).1,
        found]
  | relisted _ _ _ _ same =>
      rw [same]
      exact Forward.refl host.state
  | acted id action target _ =>
      obtain ⟨purchase, price, passes, same⟩ := (outcome_passes target).mp returned
      have later := Action.written_timestamp (fits.1 id action purchase price passes)
      rw [same, Host.offering_state]
      intro position other found
      by_cases here : asUsize id = position
      · cases Option.some.inj (found.symm.trans (here ▸ passes.found))
        refine ⟨action.written purchase, ?_, later⟩
        have inside := (List.getElem?_eq_some_iff.mp found).1
        simp only [ContractState.withContract, here, List.getElem?_set_self inside]
      · refine ⟨other, ?_, UInt64.le_refl _⟩
        simp only [ContractState.withContract, List.getElem?_set_ne here, found]

theorem Fits.computes (fits : Fits host tx) : Computes owner host tx := by
  intro after returned
  refine ⟨fits.forward returned, fun parameters call => ?_, fun id action target => ?_⟩
  · obtain ⟨relists, same⟩ := (outcome_relists call).mp returned
    obtain ⟨_, listed⟩ := relists.listed
    have inside := (List.getElem?_eq_some_iff.mp listed).1
    refine ⟨{ itemValue := parameters.value * 10 ^ 9, description := parameters.description },
      ?_, ?_⟩
    · rw [same, ContractState.relisted, List.getElem?_set_self inside]
    · exact relisted_exact_iff.mpr (fits.2 parameters relists)
  · obtain ⟨purchase, price, passes, same⟩ := (outcome_passes target).mp returned
    refine ⟨purchase, price, (action.payment host.state purchase price).toList, passes.found,
      passes.quoted, ?_, ?_⟩
    · rw [same, Host.offering_attempted]
      rfl
    · intro payment member
      exact Action.payment_shares (fits.1 id action purchase price passes)
        (Option.mem_toList.mp member)

theorem run_forward {start : Host ContractState} {txs : List Transaction}
    (fits : Along (step owner) Fits start txs) :
    Forward start.state (run (step owner) start txs).state := by
  refine @run_preserves _ _ (step owner) Fits (fun host => Forward start.state host.state) start
    txs (.refl _) (fun host tx forward fits => ?_) fits
  rcases step_cases owner host tx with same | returned
  · rw [same]
    exact forward
  · exact forward.trans (fits.forward returned)

/-- The calls of a run compute in numbers what they compute in words just when
their operands leave room.  Listed prices and payments are then the products they
stand for, and timestamps only grow. -/
theorem arithmetic_exact_iff (start : Host ContractState) (txs : List Transaction) :
    (Along (step owner) (Exact owner) start txs ↔ Along (step owner) Fits start txs) ∧
    (Along (step owner) Fits start txs →
      Along (step owner) (Computes owner) start txs ∧
      Forward start.state (run (step owner) start txs).state) := by
  have same : Exact owner = Fits := by
    funext host tx
    exact propext exact_iff_fits
  rw [same]
  exact ⟨Iff.rfl, fun fits => ⟨along_mono (fun _ _ => Fits.computes) fits, run_forward fits⟩⟩

namespace Shop

def painting (value : UInt64) : SellerUpdateListingsParameter :=
  { itemId := 0, description := "painting", value }

def relists (value : UInt64) : Transaction := send 0 0 (.updateListings (some (painting value)))

end Shop

/-- The painting is listed at 18446744074 gwei, and sold for less than one. -/
theorem not_exact_painting :
    (run (step Shop.vendor) Shop.start [Shop.relists 18446744074]).state.listings.map
      Item.itemValue = [290448384, 1] ∧
    ¬ Along (step Shop.vendor) (Exact Shop.vendor) Shop.start [Shop.relists 18446744074] := by
  refine ⟨by decide +kernel, fun along => ?_⟩
  have returns : (outcome Shop.vendor Shop.start (Shop.relists 18446744074)).isSome = true := by
    decide +kernel
  have exact := (along.1 returns).2 (Shop.painting 18446744074) rfl
  exact absurd (relisted_exact_iff.mp exact) (by decide +kernel)

/-! ## Numbers that leave room from the start -/

/-- How often the timestamp of a purchase can still be moved on. -/
def State.left : State → ℕ
  | .requested => 4
  | .accepted => 3
  | .delivered => 2
  | .dispute => 1
  | .null | .counter | .rejected | .completed | .failed => 0

/-- What a transaction brings in leaves room for what is done to it later. -/
structure Transaction.Modest (timeout : UInt64) (tx : Transaction) : Prop where
  requested : ∀ parameters, tx.call = .requestPurchase (some parameters) →
    parameters.timestamp.toNat + 40 + max 10 timeout.toNat < 2 ^ 64
  relisted : ∀ parameters, tx.call = .updateListings (some parameters) →
    parameters.value.toNat * 10 ^ 9 < 2 ^ 63

structure Roomy (timeout : UInt64) (state : ContractState) : Prop where
  unchanged : state.timeout = timeout
  prices : ∀ listing ∈ state.listings, listing.itemValue.toNat < 2 ^ 63
  timestamps : ∀ purchase ∈ state.contracts,
    purchase.timestamp.toNat + 10 * purchase.state.left + max 10 timeout.toNat < 2 ^ 64

namespace Roomy

variable {timeout : UInt64} {purchase : Purchase} {price : UInt64}

theorem fits (roomy : Roomy timeout host.state) (modest : tx.Modest timeout) : Fits host tx := by
  refine ⟨fun id action purchase price passes => ?_, fun parameters relists => ?_⟩
  · have room := roomy.timestamps purchase (List.mem_of_getElem? passes.found)
    rw [← roomy.unchanged] at room
    have quoted := passes.quoted
    cases action with
    | disputeDelivery | counterDispute | acceptContract | itemWasDelivered | sellerTimeout =>
        simp only [Action.Fits]
        omega
    | openCommitment | forfeitDispute =>
        obtain ⟨listing, listed, rfl⟩ := Option.map_eq_some_iff.mp quoted
        exact roomy.prices listing (List.mem_of_getElem? listed)
    | buyerTimeout =>
        obtain ⟨listing, listed, rfl⟩ := Option.map_eq_some_iff.mp quoted
        exact ⟨by omega, fun _ => roomy.prices listing (List.mem_of_getElem? listed)⟩
    | abort | confirmDelivery | rejectContract => trivial
  · have bound := modest.relisted parameters relists.call
    omega

theorem written (room : purchase.timestamp.toNat + 10 * purchase.state.left +
      max 10 timeout.toNat < 2 ^ 64) (stage : purchase.state ∈ action.sources) :
    (action.written purchase).timestamp.toNat + 10 * action.target.left +
      max 10 timeout.toNat < 2 ^ 64 := by
  have moved : (purchase.timestamp + 10).toNat = (purchase.timestamp.toNat + 10) % 2 ^ 64 :=
    UInt64.toNat_add _ _
  cases action with
  | disputeDelivery | counterDispute | acceptContract | itemWasDelivered =>
      rw [List.mem_singleton.mp stage] at room
      simp only [State.left] at room
      simp only [Action.written, Action.target, State.left, tsfix, moved]
      omega
  | abort | confirmDelivery | buyerTimeout | openCommitment | sellerTimeout | rejectContract
  | forfeitDispute =>
      simp only [Action.written, Action.target, State.left]
      omega

theorem step (roomy : Roomy timeout host.state) (modest : tx.Modest timeout) :
    Roomy timeout (step owner host tx).state := by
  rcases step_cases owner host tx with same | returned
  · rw [same]
    exact roomy
  · cases effect_of_outcome returned with
    | requested parameters _ _ call _ _ _ same =>
        rw [same]
        refine ⟨roomy.unchanged, roomy.prices, fun purchase member => ?_⟩
        rcases List.mem_append.mp member with old | new
        · exact roomy.timestamps purchase old
        · rw [List.mem_singleton.mp new]
          exact modest.requested parameters call
    | acted id action _ acts =>
        obtain ⟨purchase, found, _, _, _, stage, _, _, same⟩ := acts
        rw [same, Host.offering_state]
        refine ⟨roomy.unchanged, roomy.prices, fun other member => ?_⟩
        rcases List.mem_or_eq_of_mem_set member with old | rfl
        · exact roomy.timestamps other old
        · rw [Action.written_state]
          exact written (roomy.timestamps purchase (List.mem_of_getElem? found)) stage
    | relisted parameters call _ _ same =>
        rw [same]
        refine ⟨roomy.unchanged, fun listing member => ?_, roomy.timestamps⟩
        rcases List.mem_or_eq_of_mem_set member with old | rfl
        · exact roomy.prices listing old
        · have bound := modest.relisted parameters call
          have exact : (Operation.mul parameters.value (10 ^ 9)).Exact :=
            relisted_exact_iff.mpr (by omega)
          exact exact.symm ▸ bound

end Roomy

/-- Where the first prices, and what the transactions bring in, are small enough,
nothing ever wraps around. -/
theorem run_fits {start : Host ContractState} {txs : List Transaction}
    (unsold : start.state.contracts = [])
    (priced : ∀ listing ∈ start.state.listings, listing.itemValue.toNat < 2 ^ 63)
    (modest : ∀ tx ∈ txs, tx.Modest start.state.timeout) :
    Along (step owner) Fits start txs := by
  have roomy : Roomy start.state.timeout start.state := by
    refine ⟨rfl, priced, fun purchase member => ?_⟩
    rw [unsold] at member
    cases member
  exact @along_of_invariant _ _ _ _ (fun host => Roomy start.state.timeout host.state) _ _ _ roomy
    (fun _ _ roomy modest => ⟨roomy.fits modest, roomy.step modest⟩) modest

end SmartContracts.Commerce
