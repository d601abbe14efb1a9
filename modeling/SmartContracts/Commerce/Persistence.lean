import SmartContracts.Chain.Export
import SmartContracts.Commerce.Encoding
import SmartContracts.Commerce.Protocol

namespace SmartContracts.Commerce

open SmartContracts.Chain SmartContracts.Data SmartContracts.Semantics Serialize

/-! # The commerce contract on the chain

Transactions as they reach the chain, with the parameter as bytes, against the
state as bytes.  The contract behaves as it does with messages and a state of its
own types, and what older and longer states leave in the entry is never read.
-/

inductive Entrypoint where
  | buyerRequestPurchase
  | buyerAbort
  | buyerConfirmDelivery
  | buyerDisputeDelivery
  | buyerCallTimeout
  | buyerOpenCommitment
  | sellerCallTimeout
  | sellerRejectContract
  | sellerAcceptContract
  | sellerItemWasDelivered
  | sellerForfeitDispute
  | sellerCounterDispute
  | sellerUpdateListings

def Entrypoint.call (parameter : Bytes) : Entrypoint → Call
  | buyerRequestPurchase => .requestPurchase (fromBytes parameter)
  | buyerAbort => .buyerAbort (fromBytes parameter)
  | buyerConfirmDelivery => .confirmDelivery (fromBytes parameter)
  | buyerDisputeDelivery => .disputeDelivery (fromBytes parameter)
  | buyerCallTimeout => .buyerCallTimeout (fromBytes parameter)
  | buyerOpenCommitment => .openCommitment (fromBytes parameter)
  | sellerCallTimeout => .sellerCallTimeout (fromBytes parameter)
  | sellerRejectContract => .rejectContract (fromBytes parameter)
  | sellerAcceptContract => .acceptContract (fromBytes parameter)
  | sellerItemWasDelivered => .itemWasDelivered (fromBytes parameter)
  | sellerForfeitDispute => .forfeitDispute (fromBytes parameter)
  | sellerCounterDispute => .counterDispute (fromBytes parameter)
  | sellerUpdateListings => .updateListings (fromBytes parameter)

structure RawTransaction where
  sender : Address
  slotTime : Timestamp
  amount : Amount
  entrypoint : Entrypoint
  parameter : Bytes

def RawTransaction.decoded (raw : RawTransaction) : Transaction where
  sender := raw.sender
  slotTime := raw.slotTime
  amount := raw.amount
  call := raw.entrypoint.call raw.parameter

/-! ## States that can be read back -/

theorem readable_item : Readable Item := by
  intro item short
  have parts : (serial item).length =
      (serial item.itemValue).length + (serial item.description).length := List.length_append
  exact ⟨trivial, readable_string _ (by omega)⟩

theorem readable_purchase : Readable Purchase := by
  intro purchase short
  have parts : serial purchase.notes <:+: serial purchase :=
    ⟨serial purchase.commit ++ (serial purchase.timestamp ++ (serial purchase.item ++
        serial purchase.sellerBit)),
      serial purchase.state ++ serial purchase.buyer, by
        simp only [List.append_assoc]
        rfl⟩
  have shorter := parts.length_le
  exact ⟨trivial, trivial, trivial, trivial, readable_string _ (by omega), trivial, trivial⟩

theorem readable_state : Readable ContractState := by
  intro state short
  have parts : (serial state).length = (serial state.vendor ++ serial state.timeout).length +
      ((serial state.contracts).length + (serial state.listings).length) := by
    rw [← List.length_append, ← List.length_append, List.append_assoc]
    rfl
  have item : ∀ item : Item, 0 < (serial item).length := by
    intro item
    apply Nat.lt_of_lt_of_le _ (List.sublist_append_left (toLeBytes item.itemValue) _).length_le
    simp
  have purchase : ∀ purchase : Purchase, 0 < (serial purchase).length := by
    intro purchase
    apply Nat.lt_of_lt_of_le _ (List.sublist_append_left (toLeBytes purchase.commit) _).length_le
    simp
  exact ⟨trivial, trivial, readable_vec readable_purchase purchase _ (by omega),
    readable_vec readable_item item _ (by omega)⟩

/-! ## Runs -/

/-- What the chain keeps of the contract, which has no maps. -/
abbrev Kept (stored : Host StateTrie) (host : Host ContractState) : Prop :=
  Stores (fun loaded state => loaded.root = state) stored host

/-- The contract on the chain. -/
def rawStep (owner : AccountAddress) (stored : Host StateTrie) (raw : RawTransaction) :
    Host StateTrie :=
  exportedStep (mapless (outcome owner)) stored raw.decoded

/-- The state that a transaction leaves can be stored. -/
abbrev Saves (owner : AccountAddress) : Host ContractState → Transaction → Prop :=
  Savable (fun state => (serial state).length) (outcome owner)

/-- Every run on the chain is the one of the contract without the transactions whose
state was too large where they stood, which is the whole run if no state is.  The
entry begins with the state, and never gets shorter. -/
theorem raw_run_agrees (owner : AccountAddress) {stored : Host StateTrie}
    {host : Host ContractState} (kept : Kept stored host) (raws : List RawTransaction) :
    (served (step owner) (Saves owner) host (raws.map RawTransaction.decoded)).Sublist
        (raws.map RawTransaction.decoded) ∧
      Kept (run (rawStep owner) stored raws)
        (run (step owner) host
          (served (step owner) (Saves owner) host (raws.map RawTransaction.decoded))) ∧
      (rootEntry stored.state).length ≤
        (rootEntry (run (rawStep owner) stored raws).state).length ∧
      (Along (step owner) (Saves owner) host (raws.map RawTransaction.decoded) →
        served (step owner) (Saves owner) host (raws.map RawTransaction.decoded) =
          raws.map RawTransaction.decoded) := by
  have decoded : run (rawStep owner) stored raws =
      run (exportedStep (mapless (outcome owner))) stored (raws.map RawTransaction.decoded) :=
    run_inputs RawTransaction.decoded stored raws
  rw [decoded]
  obtain ⟨later, longer⟩ := kept.run (mapless_implements (outcome owner)) readable_state
    (raws.map RawTransaction.decoded)
  exact ⟨served_sublist host _, later, longer, served_of_along⟩

namespace Shop

/-- The shop as the chain keeps it before its first purchase. -/
def stored : Host StateTrie :=
  start.withState (OrderedMap.empty.insert rootKey (serial start.state))

/-- The listing of the shop under a shorter description. -/
def shortens : RawTransaction where
  sender := .account vendor
  slotTime := 1
  amount := 0
  entrypoint := .sellerUpdateListings
  parameter := toBytes ({ itemId := 0, description := "", value := 2 } :
    SellerUpdateListingsParameter)

end Shop

theorem raw_run_agrees_shorter :
    (served (step Shop.vendor) (Saves Shop.vendor) Shop.start
        ([Shop.shortens].map RawTransaction.decoded)).Sublist
        ([Shop.shortens].map RawTransaction.decoded) ∧
      Kept (run (rawStep Shop.vendor) Shop.stored [Shop.shortens])
        (run (step Shop.vendor) Shop.start
          (served (step Shop.vendor) (Saves Shop.vendor) Shop.start
            ([Shop.shortens].map RawTransaction.decoded))) ∧
      (rootEntry Shop.stored.state).length ≤
        (rootEntry (run (rawStep Shop.vendor) Shop.stored [Shop.shortens]).state).length ∧
      (Along (step Shop.vendor) (Saves Shop.vendor) Shop.start
          ([Shop.shortens].map RawTransaction.decoded) →
        served (step Shop.vendor) (Saves Shop.vendor) Shop.start
            ([Shop.shortens].map RawTransaction.decoded) =
          [Shop.shortens].map RawTransaction.decoded) := by
  have fits : Serialize.Fits Shop.start.state := readable_state _ (by decide +kernel)
  have kept : Kept Shop.stored Shop.start :=
    ⟨rfl, Shop.start.state, _, OrderedMap.get?_insert_self, ⟨fits, List.prefix_rfl⟩, rfl⟩
  exact raw_run_agrees Shop.vendor kept [Shop.shortens]

end SmartContracts.Commerce
