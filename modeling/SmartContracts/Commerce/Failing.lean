import SmartContracts.Commerce.Protocol

namespace SmartContracts.Commerce

open SmartContracts.Chain SmartContracts.Semantics

/-! # Calls that do not return

Twelve of the entrypoints check everything before they write.  The confirmation
of a delivery looks up the price after the purchase is written; it finds it,
since every purchase is stored as one of the first listing.
-/

section Entrypoints

variable {ε : Type} {ctx : ReceiveContext} {amount : Amount} {host : Host ContractState}

theorem getContract_reads {id : UInt64} :
    Reads (getContract id : Receive ε ContractState Purchase) := by
  refine fun before => ⟨fun _ _ returned => (getContract_ok.mp returned).2.symm, ?_⟩
  exact Receive.state_reads.clean_bind.mpr fun _ _ => fun error after failed =>
    (Receive.unwrapAbort_reads before).2 error after failed

theorem getListing_reads {item : UInt64} :
    Reads (getListing item : Receive ε ContractState Item) := by
  refine fun before => ⟨fun _ _ returned => (getListing_ok.mp returned).2.symm, ?_⟩
  exact Receive.state_reads.clean_bind.mpr fun _ _ => fun error after failed =>
    (Receive.unwrapAbort_reads before).2 error after failed

theorem getListing_unfailing {item : UInt64} {listing : Item}
    (listed : host.state.listings[asUsize item]? = some listing) :
    Unfailing (getListing item : Receive ε ContractState Item) host := by
  refine unfailing_bind.mpr ⟨fun _ _ => Receive.state_error.mp, fun state middle current => ?_⟩
  obtain ⟨rfl, rfl⟩ := Receive.state_ok.mp current
  intro error after failed
  cases listed.symm.trans (Receive.unwrapAbort_error.mp failed).1

theorem setContract_unfailing {id : UInt64} {contract : Purchase} :
    Unfailing (setContract id contract : Receive ε ContractState Unit) host := by
  refine unfailing_bind.mpr ⟨fun _ _ => Receive.state_error.mp, fun _ _ _ => ?_⟩
  exact Receive.setState_unfailing

theorem invokeTransfer_unfailing {receiver : AccountAddress} :
    Unfailing (invokeTransfer receiver amount : Receive ε ContractState Unit) host := by
  refine unfailing_bind.mpr ⟨Receive.invokeTransfer_unfailing, fun _ _ _ => ?_⟩
  exact fun _ _ => pure_error.mp

theorem setContract_clean {id : UInt64} {contract : Purchase} :
    Clean (setContract id contract : Receive ε ContractState Unit) host :=
  setContract_unfailing.clean

/-- What every payout ends with. -/
theorem paying_clean {id : UInt64} {contract : Purchase} {receiver : AccountAddress} :
    Clean (setContract id contract >>= fun _ => invokeTransfer receiver amount :
      Receive ε ContractState Unit) host :=
  (unfailing_bind.mpr ⟨setContract_unfailing, fun _ _ _ => invokeTransfer_unfailing⟩).clean

theorem requesting_clean {state : ContractState} {id : UInt64} :
    Clean (Receive.setState state >>= fun _ => pure id : Receive ε ContractState UInt64) host :=
  (unfailing_bind.mpr ⟨Receive.setState_unfailing, fun _ _ _ _ _ => pure_error.mp⟩).clean

theorem setState_clean {state : ContractState} :
    Clean (Receive.setState state : Receive ε ContractState Unit) host :=
  Receive.setState_unfailing.clean

attribute [local simp] Reads.clean_bind Receive.state_reads Receive.ensure_reads
  Receive.getParameter_reads Receive.senderAccount_reads getContract_reads getListing_reads
  setContract_clean paying_clean requesting_clean setState_clean

theorem buyerRequestPurchase_clean {parameter : Option BuyerRequestPurchaseParameter} :
    Clean (buyerRequestPurchase ctx amount parameter) host := by
  simp [buyerRequestPurchase, -bind_pure_comp]

theorem buyerAbort_clean {parameter : Option BuyAbortParameter} :
    Clean (buyerAbort ctx parameter) host := by
  simp [buyerAbort]

theorem buyerOpenCommitment_clean {parameter : Option BuyerOpenCommitmentParameter} :
    Clean (buyerOpenCommitment ctx parameter) host := by
  simp [buyerOpenCommitment, ite_invokeTransfer]

theorem buyerDisputeDelivery_clean {parameter : Option BuyerIdCommitment} :
    Clean (buyerDisputeDelivery ctx amount parameter) host := by
  simp [buyerDisputeDelivery]

theorem buyerCallTimeout_clean {parameter : Option IdParameter} :
    Clean (buyerCallTimeout ctx parameter) host := by
  simp [buyerCallTimeout]

theorem sellerCallTimeout_clean {parameter : Option IdParameter} :
    Clean (sellerCallTimeout ctx parameter) host := by
  simp [sellerCallTimeout]

theorem sellerRejectContract_clean {parameter : Option IdParameter} :
    Clean (sellerRejectContract ctx parameter) host := by
  simp [sellerRejectContract]

theorem sellerAcceptContract_clean {parameter : Option IdParameter} :
    Clean (sellerAcceptContract ctx parameter) host := by
  simp [sellerAcceptContract]

theorem sellerItemWasDelivered_clean {parameter : Option IdParameter} :
    Clean (sellerItemWasDelivered ctx parameter) host := by
  simp [sellerItemWasDelivered]

theorem sellerForfeitDispute_clean {parameter : Option IdParameter} :
    Clean (sellerForfeitDispute ctx parameter) host := by
  simp [sellerForfeitDispute]

theorem sellerCounterDispute_clean {parameter : Option SellerCounterDisputeParameter} :
    Clean (sellerCounterDispute ctx amount parameter) host := by
  simp [sellerCounterDispute]

theorem sellerUpdateListings_clean {parameter : Option SellerUpdateListingsParameter} :
    Clean (sellerUpdateListings ctx parameter) host := by
  simp [sellerUpdateListings]

/-- The price is there to be looked up after the write. -/
theorem buyerConfirmDelivery_clean (stored : Stored host.state) {parameter : Option IdParameter} :
    Clean (buyerConfirmDelivery ctx parameter) host := by
  refine Receive.getParameter_reads.clean_bind.mpr fun parameters _ => ?_
  refine getContract_reads.clean_bind.mpr fun contract found => ?_
  refine Receive.ensure_reads.clean_bind.mpr fun _ _ => ?_
  refine Receive.ensure_reads.clean_bind.mpr fun _ _ => ?_
  obtain ⟨_, _, listed⟩ := stored.listing (getContract_ok.mp found).1
  refine (unfailing_bind.mpr ⟨setContract_unfailing, fun _ middle written => ?_⟩).clean
  have kept : middle.state.listings = host.state.listings := by
    rw [setContract_ok.mp written]
    rfl
  refine unfailing_bind.mpr ⟨getListing_unfailing (kept ▸ listed), fun _ _ _ => ?_⟩
  refine unfailing_bind.mpr ⟨fun _ _ => Receive.state_error.mp, fun _ _ _ => ?_⟩
  exact invokeTransfer_unfailing

end Entrypoints

section Machine

variable (owner : AccountAddress)

/-- The host as a call that does not return leaves it, before anything is rolled back. -/
def stopped (host : Host ContractState) (tx : Transaction) : Option (Host ContractState) :=
  let ctx := tx.context owner
  match tx.call with
  | .requestPurchase parameter =>
      host.stopped tx.amount (buyerRequestPurchase ctx tx.amount parameter)
  | .buyerAbort parameter => host.stoppedUnpaid tx.amount (buyerAbort ctx parameter)
  | .confirmDelivery parameter => host.stoppedUnpaid tx.amount (buyerConfirmDelivery ctx parameter)
  | .disputeDelivery parameter =>
      host.stopped tx.amount (buyerDisputeDelivery ctx tx.amount parameter)
  | .buyerCallTimeout parameter => host.stoppedUnpaid tx.amount (buyerCallTimeout ctx parameter)
  | .openCommitment parameter => host.stoppedUnpaid tx.amount (buyerOpenCommitment ctx parameter)
  | .sellerCallTimeout parameter => host.stoppedUnpaid tx.amount (sellerCallTimeout ctx parameter)
  | .rejectContract parameter => host.stoppedUnpaid tx.amount (sellerRejectContract ctx parameter)
  | .acceptContract parameter => host.stoppedUnpaid tx.amount (sellerAcceptContract ctx parameter)
  | .itemWasDelivered parameter =>
      host.stoppedUnpaid tx.amount (sellerItemWasDelivered ctx parameter)
  | .forfeitDispute parameter => host.stoppedUnpaid tx.amount (sellerForfeitDispute ctx parameter)
  | .counterDispute parameter =>
      host.stopped tx.amount (sellerCounterDispute ctx tx.amount parameter)
  | .updateListings parameter => host.stoppedUnpaid tx.amount (sellerUpdateListings ctx parameter)

variable {owner} {host : Host ContractState} {tx : Transaction}

theorem stopped_isSome_iff : (stopped owner host tx).isSome ↔ outcome owner host tx = none := by
  unfold stopped outcome
  cases tx.call <;> first | exact Host.stopped_isSome | exact Host.stoppedUnpaid_isSome

theorem stopped_eq (stored : Stored host.state) {left : Host ContractState}
    (stops : stopped owner host tx = some left) : left = host.receiving tx.amount := by
  unfold stopped at stops
  split at stops
  · exact Host.stopped_of_clean buyerRequestPurchase_clean stops
  · exact Host.stoppedUnpaid_of_clean buyerAbort_clean stops
  · exact Host.stoppedUnpaid_of_clean (buyerConfirmDelivery_clean stored) stops
  · exact Host.stopped_of_clean buyerDisputeDelivery_clean stops
  · exact Host.stoppedUnpaid_of_clean buyerCallTimeout_clean stops
  · exact Host.stoppedUnpaid_of_clean buyerOpenCommitment_clean stops
  · exact Host.stoppedUnpaid_of_clean sellerCallTimeout_clean stops
  · exact Host.stoppedUnpaid_of_clean sellerRejectContract_clean stops
  · exact Host.stoppedUnpaid_of_clean sellerAcceptContract_clean stops
  · exact Host.stoppedUnpaid_of_clean sellerItemWasDelivered_clean stops
  · exact Host.stoppedUnpaid_of_clean sellerForfeitDispute_clean stops
  · exact Host.stopped_of_clean sellerCounterDispute_clean stops
  · exact Host.stoppedUnpaid_of_clean sellerUpdateListings_clean stops

end Machine

/-- A call that does not return has changed nothing and transferred nothing. -/
theorem stopped_unchanged {owner : AccountAddress} {start : Host ContractState}
    (unsold : start.state.contracts = []) (txs : List Transaction) (tx : Transaction) :
    let host := run (step owner) start txs
    (outcome owner host tx = none ↔ ∃ left, stopped owner host tx = some left) ∧
    ∀ left, stopped owner host tx = some left →
      left.state = host.state ∧ left.attempted = host.attempted ∧
        left.transfers = host.transfers := by
  intro host
  refine ⟨?_, fun left stops => ?_⟩
  · rw [← stopped_isSome_iff, Option.isSome_iff_exists]
  · rw [stopped_eq (run_stored unsold txs) stops]
    exact ⟨rfl, rfl, rfl⟩

/-- The vendor confirms the delivery in place of the buyer. -/
theorem stopped_unchanged_wrong_sender :
    let host := run (step Shop.vendor) Shop.start
      [Shop.requests 1 0 100, Shop.accepts 0, Shop.delivers 0]
    ∃ left, stopped Shop.vendor host (Shop.send 0 0 (.confirmDelivery (some { id := 0 }))) =
      some left ∧ left.state = host.state := by
  intro host
  have returnless : outcome Shop.vendor host
      (Shop.send 0 0 (.confirmDelivery (some { id := 0 }))) = none :=
    Option.isNone_iff_eq_none.mp (by decide +kernel)
  obtain ⟨stops, unchanged⟩ := @stopped_unchanged Shop.vendor Shop.start rfl
    [Shop.requests 1 0 100, Shop.accepts 0, Shop.delivers 0]
    (Shop.send 0 0 (.confirmDelivery (some { id := 0 })))
  obtain ⟨left, stopped⟩ := stops.mp returnless
  exact ⟨left, stopped, (unchanged left stopped).1⟩

end SmartContracts.Commerce
