import SmartContracts.Chain.Serial
import SmartContracts.Commerce.Contract

namespace SmartContracts.Commerce

open SmartContracts.Chain SmartContracts.Data Serialize

/-! # The bytes of the commerce contract

Parameters and state as their derived implementations write and read them, with
the fields in the order of their declaration.
-/

namespace State

/-- The place of the variant in its declaration. -/
def tag : State → UInt8
  | null => 0
  | requested => 1
  | accepted => 2
  | rejected => 3
  | delivered => 4
  | completed => 5
  | dispute => 6
  | counter => 7
  | failed => 8

def ofTag : UInt8 → Option State
  | 0 => some null
  | 1 => some requested
  | 2 => some accepted
  | 3 => some rejected
  | 4 => some delivered
  | 5 => some completed
  | 6 => some dispute
  | 7 => some counter
  | 8 => some failed
  | _ => none

theorem ofTag_iff (byte : UInt8) (state : State) :
    ofTag byte = some state ↔ state.tag = byte := by
  constructor
  · intro found
    unfold ofTag at found
    split at found <;> cases found <;> rfl
  · rintro rfl
    cases state <;> rfl

end State

instance serializeState : Serialize State where
  serial state := serial state.tag
  deserial := do
    let byte : UInt8 ← deserial
    Source.ofOption (State.ofTag byte)
  Fits _ := True
  inverts := inverts_tag State.ofTag_iff

instance serializeItem : Serialize Item where
  serial item := serial item.itemValue ++ serial item.description
  deserial := do
    let itemValue ← deserial
    let description ← deserial
    return { itemValue, description }
  Fits item := Fits item.itemValue ∧ Fits item.description
  inverts := by
    apply Inverts.record
    apply Inverts.field Item.itemValue inverts fun itemValue => ?_
    apply Inverts.last Item.description inverts
    rintro ⟨⟩ description _
    simp

instance serializePurchase : Serialize Purchase where
  serial purchase :=
    serial purchase.commit ++ (serial purchase.timestamp ++ (serial purchase.item ++
      (serial purchase.sellerBit ++ (serial purchase.notes ++ (serial purchase.state ++
        serial purchase.buyer)))))
  deserial := do
    let commit ← deserial
    let timestamp ← deserial
    let item ← deserial
    let sellerBit ← deserial
    let notes ← deserial
    let state ← deserial
    let buyer ← deserial
    return { commit, timestamp, item, sellerBit, notes, state, buyer }
  Fits purchase := Fits purchase.commit ∧ Fits purchase.timestamp ∧ Fits purchase.item ∧
    Fits purchase.sellerBit ∧ Fits purchase.notes ∧ Fits purchase.state ∧ Fits purchase.buyer
  inverts := by
    apply Inverts.record
    apply Inverts.field Purchase.commit inverts fun commit => ?_
    apply Inverts.field Purchase.timestamp inverts fun timestamp => ?_
    apply Inverts.field Purchase.item inverts fun item => ?_
    apply Inverts.field Purchase.sellerBit inverts fun sellerBit => ?_
    apply Inverts.field Purchase.notes inverts fun notes => ?_
    apply Inverts.field Purchase.state inverts fun state => ?_
    apply Inverts.last Purchase.buyer inverts
    rintro ⟨⟩ buyer _
    simp [and_assoc]

instance serializeContractState : Serialize ContractState where
  serial state :=
    serial state.vendor ++ (serial state.timeout ++ (serial state.contracts ++
      serial state.listings))
  deserial := do
    let vendor ← deserial
    let timeout ← deserial
    let contracts ← deserial
    let listings ← deserial
    return { vendor, timeout, contracts, listings }
  Fits state := Fits state.vendor ∧ Fits state.timeout ∧ Fits state.contracts ∧
    Fits state.listings
  inverts := by
    apply Inverts.record
    apply Inverts.field ContractState.vendor inverts fun vendor => ?_
    apply Inverts.field ContractState.timeout inverts fun timeout => ?_
    apply Inverts.field ContractState.contracts inverts fun contracts => ?_
    apply Inverts.last ContractState.listings inverts
    rintro ⟨⟩ listings _
    simp [and_assoc]

/-! ## Parameters -/

instance serializeInitParameter : Serialize InitParameter where
  serial parameter := serial parameter.vendor ++ serial parameter.timeout
  deserial := do
    let vendor ← deserial
    let timeout ← deserial
    return { vendor, timeout }
  Fits parameter := Fits parameter.vendor ∧ Fits parameter.timeout
  inverts := by
    apply Inverts.record
    apply Inverts.field InitParameter.vendor inverts fun vendor => ?_
    apply Inverts.last InitParameter.timeout inverts
    rintro ⟨⟩ timeout _
    simp

instance serializeBuyerRequestPurchaseParameter : Serialize BuyerRequestPurchaseParameter where
  serial parameter := serial parameter.info ++ (serial parameter.timestamp ++ serial parameter.item)
  deserial := do
    let info ← deserial
    let timestamp ← deserial
    let item ← deserial
    return { info, timestamp, item }
  Fits parameter := Fits parameter.info ∧ Fits parameter.timestamp ∧ Fits parameter.item
  inverts := by
    apply Inverts.record
    apply Inverts.field BuyerRequestPurchaseParameter.info inverts fun info => ?_
    apply Inverts.field BuyerRequestPurchaseParameter.timestamp inverts fun timestamp => ?_
    apply Inverts.last BuyerRequestPurchaseParameter.item inverts
    rintro ⟨⟩ item _
    simp [and_assoc]

instance serializeIdParameter : Serialize IdParameter where
  serial parameter := serial parameter.id
  deserial := do
    let id ← deserial
    return { id }
  Fits parameter := Fits parameter.id
  inverts := by
    apply Inverts.record
    apply Inverts.last IdParameter.id inverts
    rintro ⟨⟩ id _
    simp

instance serializeBuyAbortParameter : Serialize BuyAbortParameter where
  serial parameter := serial parameter.id ++ serial parameter.item
  deserial := do
    let id ← deserial
    let item ← deserial
    return { id, item }
  Fits parameter := Fits parameter.id ∧ Fits parameter.item
  inverts := by
    apply Inverts.record
    apply Inverts.field BuyAbortParameter.id inverts fun id => ?_
    apply Inverts.last BuyAbortParameter.item inverts
    rintro ⟨⟩ item _
    simp

instance serializeBuyerIdCommitment : Serialize BuyerIdCommitment where
  serial parameter := serial parameter.id ++ serial parameter.commitment
  deserial := do
    let id ← deserial
    let commitment ← deserial
    return { id, commitment }
  Fits parameter := Fits parameter.id ∧ Fits parameter.commitment
  inverts := by
    apply Inverts.record
    apply Inverts.field BuyerIdCommitment.id inverts fun id => ?_
    apply Inverts.last BuyerIdCommitment.commitment inverts
    rintro ⟨⟩ commitment _
    simp

instance serializeBuyerOpenCommitmentParameter : Serialize BuyerOpenCommitmentParameter where
  serial parameter := serial parameter.id ++ (serial parameter.buyerBit ++ serial parameter.nonce)
  deserial := do
    let id ← deserial
    let buyerBit ← deserial
    let nonce ← deserial
    return { id, buyerBit, nonce }
  Fits parameter := Fits parameter.id ∧ Fits parameter.buyerBit ∧ Fits parameter.nonce
  inverts := by
    apply Inverts.record
    apply Inverts.field BuyerOpenCommitmentParameter.id inverts fun id => ?_
    apply Inverts.field BuyerOpenCommitmentParameter.buyerBit inverts fun buyerBit => ?_
    apply Inverts.last BuyerOpenCommitmentParameter.nonce inverts
    rintro ⟨⟩ nonce _
    simp [and_assoc]

instance serializeSellerCounterDisputeParameter : Serialize SellerCounterDisputeParameter where
  serial parameter := serial parameter.id ++ serial parameter.randomBit
  deserial := do
    let id ← deserial
    let randomBit ← deserial
    return { id, randomBit }
  Fits parameter := Fits parameter.id ∧ Fits parameter.randomBit
  inverts := by
    apply Inverts.record
    apply Inverts.field SellerCounterDisputeParameter.id inverts fun id => ?_
    apply Inverts.last SellerCounterDisputeParameter.randomBit inverts
    rintro ⟨⟩ randomBit _
    simp

instance serializeSellerUpdateListingsParameter : Serialize SellerUpdateListingsParameter where
  serial parameter :=
    serial parameter.itemId ++ (serial parameter.description ++ serial parameter.value)
  deserial := do
    let itemId ← deserial
    let description ← deserial
    let value ← deserial
    return { itemId, description, value }
  Fits parameter := Fits parameter.itemId ∧ Fits parameter.description ∧ Fits parameter.value
  inverts := by
    apply Inverts.record
    apply Inverts.field SellerUpdateListingsParameter.itemId inverts fun itemId => ?_
    apply Inverts.field SellerUpdateListingsParameter.description inverts fun description => ?_
    apply Inverts.last SellerUpdateListingsParameter.value inverts
    rintro ⟨⟩ value _
    simp [and_assoc]

end SmartContracts.Commerce
