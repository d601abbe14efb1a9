import SmartContracts.Commerce.Protocol

namespace SmartContracts.Commerce

open SmartContracts.Chain SmartContracts.Semantics

/-! # Opening a commitment

A disputed purchase stores the commitment of its buyer before the vendor picks
a bit.  The opening reads neither the bit nor the nonce for it: a commitment of
zero opens to either bit, and no other commitment opens at all.
-/

def opening (buyer : AccountAddress) (slotTime : Timestamp)
    (parameter : BuyerOpenCommitmentParameter) : Transaction :=
  { sender := .account buyer, slotTime, amount := 0, call := .openCommitment (some parameter) }

/-- The buyer can open the commitment of the purchase at this position to this bit. -/
def Opens (owner : AccountAddress) (host : Host ContractState) (position : ℕ)
    (purchase : Purchase) (bit : Bool) : Prop :=
  ∃ id nonce slotTime, asUsize id = position ∧
    (outcome owner host (opening purchase.buyer slotTime { id, buyerBit := bit, nonce })).isSome

variable {owner : AccountAddress} {host : Host ContractState} {purchase : Purchase}

/-- The bit, the nonce and the time play no part in it. -/
theorem opening_isSome (stored : Stored host.state) {id : UInt64}
    (found : host.state.contracts[asUsize id]? = some purchase)
    (stage : purchase.state = .counter) (bit : Bool) (nonce : UInt64) (slotTime : Timestamp) :
    (outcome owner host
      (opening purchase.buyer slotTime { id, buyerBit := bit, nonce })).isSome ↔
      purchase.commit = 0 := by
  have target : (opening purchase.buyer slotTime { id, buyerBit := bit, nonce }).call.target =
      some (id, .openCommitment bit) := rfl
  rw [Option.isSome_iff_exists]
  simp only [outcome_target target]
  constructor
  · intro opened
    obtain ⟨_, named, namedFound, _, _, _, _, _, admits, _⟩ := opened
    cases Option.some.inj (found.symm.trans namedFound)
    exact admits
  · intro zero
    obtain ⟨first, _, listed⟩ := stored.listing found
    refine ⟨_, purchase, found, first.itemValue, ?_, rfl, ?_, rfl, zero, rfl⟩
    · simp only [Action.price, Host.receiving_state, listed, Option.map_some]
    · rw [stage]
      exact List.mem_singleton_self _

theorem opens_iff (stored : Stored host.state) {id : UInt64}
    (found : host.state.contracts[asUsize id]? = some purchase)
    (stage : purchase.state = .counter) (bit : Bool) :
    Opens owner host (asUsize id) purchase bit ↔ purchase.commit = 0 := by
  constructor
  · intro opened
    obtain ⟨other, nonce, slotTime, same, opened⟩ := opened
    rw [← same] at found
    exact (opening_isSome stored found stage bit nonce slotTime).mp opened
  · intro zero
    exact ⟨id, 0, 0, rfl, (opening_isSome stored found stage bit 0 0).mpr zero⟩

/-- No disputed purchase has exactly one bit its commitment opens to. -/
theorem opens_no_single_bit {start : Host ContractState} (unsold : start.state.contracts = [])
    (txs : List Transaction) :
    let host := run (step owner) start txs
    ∀ (position : ℕ) (purchase : Purchase),
      host.state.contracts[position]? = some purchase → purchase.state = .counter →
      (∀ id, asUsize id = position →
        ∀ bit, Opens owner host position purchase bit ↔ purchase.commit = 0) ∧
      ¬ ∃! bit, Opens owner host position purchase bit := by
  intro host position purchase found stage
  have stored : Stored host.state := run_stored unsold txs
  have opens : ∀ id, asUsize id = position →
      ∀ bit, Opens owner host position purchase bit ↔ purchase.commit = 0 := by
    rintro id rfl bit
    exact opens_iff stored found stage bit
  refine ⟨opens, fun single => ?_⟩
  obtain ⟨bit, opened, only⟩ := single
  obtain ⟨id, _, _, named, _⟩ := id opened
  have zero := (opens id named bit).mp opened
  have other : (!bit) = bit := only _ ((opens id named (!bit)).mpr zero)
  cases bit <;> cases other

namespace Shop

/-- The buyer 1 disputes the delivery under a commitment and the vendor counters. -/
def disputed (commitment : UInt64) : List Transaction :=
  [requests 1 0 100, accepts 0, delivers 0,
    send 1 100 (.disputeDelivery (some { id := 0, commitment })),
    send 0 100 (.counterDispute (some { id := 0, randomBit := true }))]

end Shop

theorem opens_no_single_bit_disputed :
    ∃ purchase, (run (step Shop.vendor) Shop.start (Shop.disputed 7)).state.contracts[0]? =
        some purchase ∧ purchase.state = .counter ∧
      ¬ ∃! bit, Opens Shop.vendor (run (step Shop.vendor) Shop.start (Shop.disputed 7)) 0
        purchase bit := by
  have reached : ((run (step Shop.vendor) Shop.start (Shop.disputed 7)).state.contracts[0]?).map
      Purchase.state = some .counter := by
    decide +kernel
  obtain ⟨purchase, found, stage⟩ := Option.map_eq_some_iff.mp reached
  exact ⟨purchase, found, stage,
    (@opens_no_single_bit Shop.vendor Shop.start rfl (Shop.disputed 7) 0 purchase found stage).2⟩

/-- The buyer of a purchase under the commitment zero chooses who wins, and no
other buyer can answer the vendor. -/
theorem not_opens_single_bit :
    Shop.start.state.contracts = [] ∧
    (∃ purchase, (run (step Shop.vendor) Shop.start (Shop.disputed 0)).state.contracts[0]? =
        some purchase ∧ purchase.state = .counter ∧
      ∀ bit, Opens Shop.vendor (run (step Shop.vendor) Shop.start (Shop.disputed 0)) 0
        purchase bit) ∧
    ∃ purchase, (run (step Shop.vendor) Shop.start (Shop.disputed 7)).state.contracts[0]? =
        some purchase ∧ purchase.state = .counter ∧
      ∀ bit, ¬ Opens Shop.vendor (run (step Shop.vendor) Shop.start (Shop.disputed 7)) 0
        purchase bit := by
  have reached : ∀ commitment host, run (step Shop.vendor) Shop.start (Shop.disputed commitment) =
      host → (host.state.contracts[asUsize 0]?).map
        (fun purchase => (purchase.state, purchase.commit)) = some (.counter, commitment) →
      ∃ purchase, host.state.contracts[0]? = some purchase ∧ purchase.state = .counter ∧
        ∀ bit, Opens Shop.vendor host 0 purchase bit ↔ commitment = 0 := by
    rintro commitment _ rfl countered
    obtain ⟨purchase, found, same⟩ := Option.map_eq_some_iff.mp countered
    obtain ⟨stage, rfl⟩ := Prod.mk.inj same
    exact ⟨purchase, found, stage, opens_iff (run_stored rfl _) found stage⟩
  obtain ⟨first, foundFirst, stageFirst, opensFirst⟩ := reached 0 _ rfl (by decide +kernel)
  obtain ⟨second, foundSecond, stageSecond, opensSecond⟩ := reached 7 _ rfl (by decide +kernel)
  refine ⟨rfl, ⟨first, foundFirst, stageFirst, fun bit => (opensFirst bit).mpr rfl⟩,
    second, foundSecond, stageSecond, fun bit opened => ?_⟩
  exact absurd ((opensSecond bit).mp opened) (by decide)

end SmartContracts.Commerce
