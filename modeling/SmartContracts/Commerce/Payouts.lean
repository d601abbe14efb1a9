import SmartContracts.Commerce.Transfers

namespace SmartContracts.Commerce

open SmartContracts.Chain SmartContracts.Semantics

/-! # Who decides what is paid

Two calls of one entrypoint on one purchase are compared.  All but two of the
paying entrypoints pay what the state says; opening a commitment chooses the
payee with its bit, and aborting chooses the amount with its item.
-/

namespace Action

/-- The action without what its message chooses. -/
def bare : Action → Action
  | abort _ => abort 0
  | disputeDelivery _ => disputeDelivery 0
  | openCommitment _ => openCommitment false
  | counterDispute _ => counterDispute false
  | confirmDelivery => confirmDelivery
  | buyerTimeout => buyerTimeout
  | sellerTimeout => sellerTimeout
  | rejectContract => rejectContract
  | acceptContract => acceptContract
  | itemWasDelivered => itemWasDelivered
  | forfeitDispute => forfeitDispute

def opens : Action → Bool
  | openCommitment _ => true
  | _ => false

theorem bare_target (action : Action) : action.bare.target = action.target := by
  cases action <;> rfl

/-- What is due for the purchase stored under an id. -/
def payout (state : ContractState) (id : UInt64) (action : Action) :
    Option (AccountAddress × Amount) := do
  let purchase ← state.contracts[asUsize id]?
  let price ← action.price state purchase
  action.payment state purchase price

variable {action other : Action}

/-- Entrypoints that pay choose nothing, or the item of an abort, or a bit. -/
theorem bare_cases (same : action.bare = other.bare) (closing : action.target.closed = true) :
    action = other ∨ (∃ item otherItem, action = abort item ∧ other = abort otherItem) ∨
      ∃ bit otherBit, action = openCommitment bit ∧ other = openCommitment otherBit := by
  cases action with
  | abort item =>
      cases other with
      | abort otherItem => exact .inr (.inl ⟨item, otherItem, rfl, rfl⟩)
      | _ => cases same
  | openCommitment bit =>
      cases other with
      | openCommitment otherBit => exact .inr (.inr ⟨bit, otherBit, rfl, rfl⟩)
      | _ => cases same
  | disputeDelivery | counterDispute | acceptContract | itemWasDelivered => cases closing
  | confirmDelivery | buyerTimeout | sellerTimeout | rejectContract | forfeitDispute =>
      cases other with
      | confirmDelivery | buyerTimeout | sellerTimeout | rejectContract | forfeitDispute =>
          first | exact .inl rfl | cases same
      | _ => cases same

/-- Payments agree in the amount, and in the payee unless a commitment is opened. -/
def Agrees (action : Action) (payment other : AccountAddress × Amount) : Prop :=
  payment.2 = other.2 ∧ (action.opens = false → payment.1 = other.1)

theorem Agrees.refl (action : Action) (payment : AccountAddress × Amount) :
    action.Agrees payment payment :=
  ⟨rfl, fun _ => rfl⟩

/-- Where both actions abort, the listings of their items have the same price. -/
def SamePrice (state : ContractState) (action other : Action) : Prop :=
  ∀ item otherItem, action = abort item → other = abort otherItem →
    state.listings[asUsize item]?.map Item.itemValue =
      state.listings[asUsize otherItem]?.map Item.itemValue

variable {state : ContractState} {id : UInt64} {payment paymentOther : AccountAddress × Amount}

theorem payout_eq_some :
    action.payout state id = some payment ↔
      ∃ purchase, state.contracts[asUsize id]? = some purchase ∧
        ∃ price, action.price state purchase = some price ∧
          action.payment state purchase price = some payment := by
  simp only [payout, Option.bind_eq_bind, Option.bind_eq_some_iff]

theorem agrees_iff_samePrice (same : action.bare = other.bare)
    (closing : action.target.closed = true) (due : action.payout state id = some payment)
    (dueOther : other.payout state id = some paymentOther) :
    action.Agrees payment paymentOther ↔ SamePrice state action other := by
  obtain ⟨purchase, found, price, quoted, owed⟩ := payout_eq_some.mp due
  obtain ⟨_, foundOther, priceOther, quotedOther, owedOther⟩ := payout_eq_some.mp dueOther
  cases Option.some.inj (found.symm.trans foundOther)
  rcases bare_cases same closing with rfl | aborting | opening
  · rw [Option.some.inj (due.symm.trans dueOther)]
    refine ⟨fun _ item otherItem left right => ?_, fun _ => .refl _ _⟩
    rw [abort.inj (left.symm.trans right)]
  · obtain ⟨item, otherItem, rfl, rfl⟩ := aborting
    cases owed
    cases owedOther
    have agreed : (abort item).Agrees (purchase.buyer, price) (purchase.buyer, priceOther) ↔
        price = priceOther := ⟨fun agrees => agrees.1, fun amount => ⟨amount, fun _ => rfl⟩⟩
    simp only [Action.price] at quoted quotedOther
    rw [agreed]
    constructor
    · intro amount _ _ left right
      cases left
      cases right
      rw [quoted, quotedOther, amount]
    · intro samePrice
      have prices := samePrice item otherItem rfl rfl
      rw [quoted, quotedOther] at prices
      exact Option.some.inj prices
  · obtain ⟨bit, otherBit, rfl, rfl⟩ := opening
    cases Option.some.inj (quoted.symm.trans quotedOther)
    cases owed
    cases owedOther
    constructor
    · intro _ _ _ left
      cases left
    · intro _
      exact ⟨rfl, fun closed => by cases closed⟩

/-- What does not choose its item is paid what the state and the entrypoint say. -/
theorem payout_bare (aborts : ∀ item, action ≠ abort item)
    (due : action.payout state id = some payment) :
    ∃ own, action.bare.payout state id = some own ∧ action.Agrees payment own := by
  cases action with
  | abort item => exact absurd rfl (aborts item)
  | openCommitment bit =>
      obtain ⟨purchase, found, price, quoted, owed⟩ := payout_eq_some.mp due
      cases owed
      exact ⟨_, payout_eq_some.mpr ⟨purchase, found, price, quoted, rfl⟩, rfl,
        fun closed => by cases closed⟩
  | disputeDelivery | counterDispute =>
      obtain ⟨_, _, _, _, owed⟩ := payout_eq_some.mp due
      cases owed
  | confirmDelivery | buyerTimeout | sellerTimeout | rejectContract | acceptContract
  | itemWasDelivered | forfeitDispute => exact ⟨payment, due, .refl _ _⟩

end Action

variable {owner : AccountAddress} {host hostOther after afterOther : Host ContractState}
  {id : UInt64} {action other : Action}

theorem attempted_of_outcome {tx : Transaction} (target : tx.call.target = some (id, action))
    (closing : action.target.closed = true) (returned : outcome owner host tx = some after) :
    ∃ payment, action.payout host.state id = some payment ∧
      after.attempted = host.attempted ++ [payment] := by
  obtain ⟨purchase, found, price, quoted, _, _, _, _, acted⟩ := (outcome_target target).mp returned
  have pays : (action.payment host.state purchase price).isSome = true :=
    Action.payment_isSome.trans closing
  obtain ⟨payment, owed⟩ := Option.isSome_iff_exists.mp pays
  refine ⟨payment, Action.payout_eq_some.mpr ⟨purchase, found, price, quoted, owed⟩, ?_⟩
  rw [acted, Host.offering_attempted]
  exact congrArg (host.attempted ++ ·) (congrArg Option.toList owed)

/-- Two calls of an entrypoint on a purchase that return attempt payments that
agree, just when aborts name items of the same price.  Nothing but the item of an
abort has a say in the payment. -/
theorem payouts_agree_iff {first second : Transaction} (paying : first.call.paying = true)
    (target : first.call.target = some (id, action))
    (targetOther : second.call.target = some (id, other)) (entrypoint : action.bare = other.bare)
    (state : host.state = hostOther.state) (returned : outcome owner host first = some after)
    (returnedOther : outcome owner hostOther second = some afterOther) :
    ∃ payment paymentOther, after.attempted = host.attempted ++ [payment] ∧
      afterOther.attempted = hostOther.attempted ++ [paymentOther] ∧
      (action.Agrees payment paymentOther ↔ Action.SamePrice host.state action other) ∧
      ((∀ item, action ≠ .abort item) → ∃ own, action.bare.payout host.state id = some own ∧
        action.Agrees payment own) := by
  have closing := Call.closed_of_paying paying target
  have closingOther : other.target.closed = true := by
    rw [← Action.bare_target, ← entrypoint, Action.bare_target, closing]
  obtain ⟨payment, due, attempted⟩ := attempted_of_outcome target closing returned
  obtain ⟨paymentOther, dueOther, attemptedOther⟩ :=
    attempted_of_outcome targetOther closingOther returnedOther
  rw [← state] at dueOther
  exact ⟨payment, paymentOther, attempted, attemptedOther,
    Action.agrees_iff_samePrice entrypoint closing due dueOther,
    fun aborts => Action.payout_bare aborts due⟩

/-- A buyer aborts the purchase of a postcard for the price of the painting, or
for its own. -/
theorem not_agrees_postcard :
    ∃ after afterOther payment paymentOther,
      outcome Shop.vendor Shop.postcard (Shop.aborts 0) = some after ∧
      outcome Shop.vendor Shop.postcard (Shop.aborts 1) = some afterOther ∧
      after.attempted = Shop.postcard.attempted ++ [payment] ∧
      afterOther.attempted = Shop.postcard.attempted ++ [paymentOther] ∧
      payment.2 ≠ paymentOther.2 := by
  have reached : (outcome Shop.vendor Shop.postcard (Shop.aborts 0)).map Host.attempted =
        some [(.ofByte 2, 100)] ∧
      (outcome Shop.vendor Shop.postcard (Shop.aborts 1)).map Host.attempted =
        some [(.ofByte 2, 1)] := by
    decide +kernel
  have fresh : Shop.postcard.attempted = [] := by
    decide +kernel
  obtain ⟨after, returned, attempted⟩ := Option.map_eq_some_iff.mp reached.1
  obtain ⟨afterOther, returnedOther, attemptedOther⟩ := Option.map_eq_some_iff.mp reached.2
  rw [fresh]
  exact ⟨after, afterOther, _, _, returned, returnedOther, attempted, attemptedOther, by decide⟩

namespace Shop

/-- A shop with a painting and a print at one price, where the print is bought. -/
def prints : Host ContractState :=
  run (step vendor)
    (Host.deployed {
      vendor, timeout := 1, contracts := [], listings := [⟨100, "painting"⟩, ⟨100, "print"⟩] })
    [requests 2 1 100]

end Shop

theorem payouts_agree_iff_print :
    ∃ after afterOther payment paymentOther,
      outcome Shop.vendor Shop.prints (Shop.aborts 0) = some after ∧
      outcome Shop.vendor Shop.prints (Shop.aborts 1) = some afterOther ∧
      after.attempted = Shop.prints.attempted ++ [payment] ∧
      afterOther.attempted = Shop.prints.attempted ++ [paymentOther] ∧
      (Action.abort 0).Agrees payment paymentOther := by
  have returns : (outcome Shop.vendor Shop.prints (Shop.aborts 0)).isSome = true ∧
      (outcome Shop.vendor Shop.prints (Shop.aborts 1)).isSome = true := by
    decide +kernel
  have priced : Shop.prints.state.listings[asUsize 0]?.map Item.itemValue =
      Shop.prints.state.listings[asUsize 1]?.map Item.itemValue := by
    decide +kernel
  obtain ⟨after, returned⟩ := Option.isSome_iff_exists.mp returns.1
  obtain ⟨afterOther, returnedOther⟩ := Option.isSome_iff_exists.mp returns.2
  obtain ⟨payment, paymentOther, attempted, attemptedOther, agree, _⟩ :=
    @payouts_agree_iff Shop.vendor Shop.prints Shop.prints after afterOther 0 (.abort 0) (.abort 1)
      (Shop.aborts 0) (Shop.aborts 1) rfl rfl rfl rfl rfl returned returnedOther
  refine ⟨after, afterOther, payment, paymentOther, returned, returnedOther, attempted,
    attemptedOther, agree.mpr ?_⟩
  intro item otherItem same sameOther
  cases same
  cases sameOther
  exact priced

end SmartContracts.Commerce
