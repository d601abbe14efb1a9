import SmartContracts.Commerce.Protocol

namespace SmartContracts.Commerce

open SmartContracts.Chain SmartContracts.Semantics

/-! # What a request leaves behind

A request is priced by the item it names, but the purchase is stored as one of
the first item, and the caller is told that it is the first purchase.
-/

/-- The request is recorded as what it was, at the index it returns. -/
def Recorded (before after : ContractState) (sender : Address) (amount : Amount)
    (parameters : BuyerRequestPurchaseParameter) (id : UInt64) : Prop :=
  ∃ purchase, after.contracts = before.contracts ++ [purchase] ∧
    id.toNat = before.contracts.length ∧ after.contracts[asUsize id]? = some purchase ∧
    purchase.item = parameters.item ∧ sender = .account purchase.buyer ∧
    purchase.state = .requested ∧
    before.listings[asUsize purchase.item]?.map Item.itemValue = some amount

/-- The request passes its checks: the item is listed at what an account pays. -/
def Payable (state : ContractState) (sender : Address) (amount : Amount)
    (parameters : BuyerRequestPurchaseParameter) : Prop :=
  state.listings[asUsize parameters.item]?.map Item.itemValue = some amount ∧
    ∃ buyer, sender = .account buyer

variable {ctx : ReceiveContext} {amount : Amount} {before after : Host ContractState}
  {parameters : BuyerRequestPurchaseParameter}

theorem buyerRequestPurchase_returns :
    (∃ id after, (buyerRequestPurchase ctx amount (some parameters)).run before = .ok id after) ↔
      Payable before.state ctx.sender amount parameters := by
  simp only [buyerRequestPurchase_ok, Payable, Option.map_eq_some_iff]
  constructor
  · intro returned
    obtain ⟨_, _, _, same, listing, listed, priced, buyer, account, _⟩ := returned
    cases same
    exact ⟨⟨listing, listed, priced.symm⟩, buyer, account⟩
  · intro payable
    obtain ⟨⟨listing, listed, priced⟩, buyer, account⟩ := payable
    exact ⟨0, _, parameters, rfl, listing, listed, priced.symm, buyer, account, rfl, rfl⟩

theorem recorded_requested {state : ContractState} {buyer : AccountAddress}
    (priced : state.listings[asUsize parameters.item]?.map Item.itemValue = some amount) :
    Recorded state (state.requested buyer parameters) (.account buyer) amount parameters 0 ↔
      state.contracts = [] ∧ parameters.item = 0 := by
  constructor
  · intro recorded
    obtain ⟨purchase, appended, index, _, item, _⟩ := recorded
    have stored := List.append_cancel_left appended
    rw [List.cons.injEq] at stored
    refine ⟨List.eq_nil_of_length_eq_zero index.symm, ?_⟩
    rw [← item, ← stored.1]
  · intro first
    obtain ⟨unsold, item⟩ := first
    refine ⟨_, rfl, ?_, ?_, item.symm, rfl, rfl, ?_⟩
    · rw [unsold]
      rfl
    · rw [ContractState.requested, unsold]
      rfl
    · rw [item] at priced
      exact priced

theorem recorded_returned {id : UInt64}
    (returned : (buyerRequestPurchase ctx amount (some parameters)).run before = .ok id after) :
    Recorded before.state after.state ctx.sender amount parameters id ↔
      before.state.contracts = [] ∧ parameters.item = 0 := by
  have payable := buyerRequestPurchase_returns.mp ⟨id, after, returned⟩
  obtain ⟨_, same, _, _, _, buyer, account, rfl, rfl⟩ := buyerRequestPurchase_ok.mp returned
  cases same
  rw [account]
  exact recorded_requested payable.1

/-- A request is recorded as what it was just when it is the first of all and
names the first item. -/
theorem recorded_iff {parameter : Option BuyerRequestPurchaseParameter} :
    (∀ parameters id after, parameter = some parameters →
      (buyerRequestPurchase ctx amount parameter).run before = .ok id after →
      Recorded before.state after.state ctx.sender amount parameters id) ↔
    ∀ parameters, parameter = some parameters →
      Payable before.state ctx.sender amount parameters →
      before.state.contracts = [] ∧ parameters.item = 0 := by
  constructor
  · intro records parameters given payable
    subst given
    obtain ⟨id, after, returned⟩ := buyerRequestPurchase_returns.mpr payable
    exact (recorded_returned returned).mp (records parameters id after rfl returned)
  · intro first parameters id after given returned
    subst given
    have payable := buyerRequestPurchase_returns.mp ⟨id, after, returned⟩
    exact (recorded_returned returned).mpr (first parameters rfl payable)

namespace Shop

def postcardRequest : BuyerRequestPurchaseParameter := { info := "", timestamp := 0, item := 1 }

def buying (index : UInt8) : ReceiveContext :=
  { sender := .account (.ofByte index), owner := vendor, slotTime := 0 }

end Shop

/-- The postcard is requested and paid for, and the painting is recorded. -/
theorem not_recorded_postcard :
    ∃ id after,
      (buyerRequestPurchase (Shop.buying 1) 1 (some Shop.postcardRequest)).run Shop.start =
        .ok id after ∧
      ¬ Recorded Shop.start.state after.state (Shop.buying 1).sender 1 Shop.postcardRequest id := by
  have payable : Payable Shop.start.state (Shop.buying 1).sender 1 Shop.postcardRequest :=
    ⟨rfl, .ofByte 1, rfl⟩
  obtain ⟨id, after, returned⟩ := buyerRequestPurchase_returns.mpr payable
  refine ⟨id, after, returned, fun recorded => ?_⟩
  have item := ((recorded_returned returned).mp recorded).2
  exact absurd item (by decide)

end SmartContracts.Commerce
