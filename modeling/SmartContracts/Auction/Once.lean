import SmartContracts.Auction.Settlement

namespace SmartContracts.Auction

open SmartContracts.Chain SmartContracts.Data SmartContracts.Semantics

/-! # How often an auction is finalized

Finalization records the sale, and a sold auction turns every call away.  But
where nobody has bid there is nothing to record, and the call returns each time.
-/

/-- The transaction is a finalization that returns. -/
def Finalizes (owner : AccountAddress) (host : Host State) (tx : Transaction) : Prop :=
  tx.entrypoint = .finalize ∧
    (host.returnedUnpaid tx.amount (auctionFinalize (tx.context owner))).isSome

instance decidableFinalizes (owner : AccountAddress) (host : Host State) (tx : Transaction) :
    Decidable (Finalizes owner host tx) :=
  inferInstanceAs (Decidable (_ ∧ _))

/-- The transaction finalizes, after the expiry, an auction that holds no money. -/
def Unfunded (host : Host State) (tx : Transaction) : Prop :=
  tx.entrypoint = .finalize ∧ tx.amount = 0 ∧ host.state.auctionState = .notSoldYet ∧
    tx.slotTime > host.state.expiry ∧ host.balance = 0

instance decidableUnfunded (host : Host State) (tx : Transaction) : Decidable (Unfunded host tx) :=
  inferInstanceAs (Decidable (_ ∧ _ ∧ _ ∧ _ ∧ _))

def sales (host : Host State) : ℕ := if host.state.auctionState = .notSoldYet then 0 else 1

variable {owner : AccountAddress} {host : Host State} {tx : Transaction}

theorem sales_le_one (host : Host State) : sales host ≤ 1 := by
  unfold sales
  split <;> omega

theorem finalizes_iff :
    Finalizes owner host tx ↔
      tx.entrypoint = .finalize ∧ tx.amount = 0 ∧
        ∃ after, (auctionFinalize (tx.context owner)).run host = .ok () after := by
  simp only [Finalizes, Option.isSome_iff_exists, Host.returnedUnpaid_eq_some]
  constructor
  · intro finalizes
    obtain ⟨call, after, unpaid, _, returned⟩ := finalizes
    exact ⟨call, unpaid, after, returned⟩
  · intro finalizes
    obtain ⟨call, unpaid, after, returned⟩ := finalizes
    exact ⟨call, after, unpaid, (), returned⟩

theorem step_finalize (call : tx.entrypoint = .finalize) (unpaid : tx.amount = 0)
    {after : Host State} (returned : (auctionFinalize (tx.context owner)).run host = .ok () after) :
    step owner host tx = after := by
  simp only [step, call, Host.transactUnpaid, unpaid, if_true, Host.transact, Host.receiving_zero,
    returned]

theorem Unfunded.finalizes (unfunded : Unfunded host tx) : Finalizes owner host tx := by
  obtain ⟨call, unpaid, unsold, late, empty⟩ := unfunded
  exact finalizes_iff.mpr ⟨call, unpaid, host,
    auctionFinalize_ok.mpr ⟨unsold, late, .inl ⟨empty, rfl⟩⟩⟩

theorem not_finalizes_sold (sold : host.state.auctionState ≠ .notSoldYet) :
    ¬ Finalizes owner host tx := by
  intro finalizes
  obtain ⟨_, _, _, returned⟩ := finalizes_iff.mp finalizes
  exact sold (auctionFinalize_ok.mp returned).1

theorem step_stays (failing : ¬ Finalizes owner host tx) (call : tx.entrypoint = .finalize) :
    step owner host tx = host := by
  simp only [step, call]
  rcases Host.transactUnpaid_cases host tx.amount (auctionFinalize (tx.context owner)) with
    same | returned
  · exact same
  · obtain ⟨unpaid, _, returned⟩ := returned
    exact absurd (finalizes_iff.mpr ⟨call, unpaid, _, returned⟩) failing

/-- Each finalization that returns either finds no money or makes the sale. -/
theorem step_sales (owner : AccountAddress) (host : Host State) (tx : Transaction) :
    (if Finalizes owner host tx then 1 else 0) + sales host =
      (if Unfunded host tx then 1 else 0) + sales (step owner host tx) := by
  by_cases unsold : host.state.auctionState = .notSoldYet
  · have before : sales host = 0 := if_pos unsold
    cases call : tx.entrypoint with
    | bid =>
        have bidding : tx.entrypoint ≠ .finalize := by simp [call]
        have after : sales (step owner host tx) = 0 := by
          rcases step_cases (absurd · bidding) with ⟨_, same⟩ | ⟨bidder, _, _, same⟩
          · rw [same, before]
          · rw [same]
            exact if_pos unsold
        rw [before, after, if_neg fun finalizes => bidding finalizes.1,
          if_neg fun unfunded => bidding unfunded.1]
    | finalize =>
        by_cases finalizes : Finalizes owner host tx
        · obtain ⟨_, unpaid, after, returned⟩ := finalizes_iff.mp finalizes
          rw [if_pos finalizes, before, step_finalize call unpaid returned]
          obtain ⟨_, late, body⟩ := auctionFinalize_ok.mp returned
          rcases body with ⟨empty, rfl⟩ | ⟨funded, winner, _, _, rfl⟩
          · rw [if_pos ⟨call, unpaid, unsold, late, empty⟩, before]
          · rw [if_neg fun unfunded => funded unfunded.2.2.2.2]
            rfl
        · rw [if_neg finalizes, if_neg fun unfunded => finalizes unfunded.finalizes,
            step_stays finalizes call]
  · rw [if_neg (not_finalizes_sold unsold), if_neg fun unfunded => unsold unfunded.2.2.1,
      step_sold unsold]

/-- What holds of the money and the bids until the item is sold. -/
structure Open (history : BidHistory) (host : Host State) : Prop where
  below : ∀ bidder amount, host.state.bids.get? bidder = some amount →
    amount ≤ host.state.highestBid
  empty : host.balance = 0 ↔ history = []

theorem Open.bid {history : BidHistory} {bidder : AccountAddress} {amount : Amount}
    (before : Open history host)
    (higher : host.state.raised bidder amount > host.state.highestBid) :
    Open (history ++ [(bidder, amount)])
      { host.receiving amount with state := host.state.withBid bidder amount } := by
  refine ⟨fun other found lookup => ?_, ?_⟩
  · simp only [State.withBid, OrderedMap.get?_insert] at lookup
    split at lookup
    · exact UInt64.le_of_eq (Option.some.inj lookup).symm
    · exact UInt64.le_trans (before.below other found lookup) (UInt64.le_of_lt higher)
  · -- a bid of nothing would leave the bidder's sum where it was
    have something : amount ≠ 0 := by
      intro nothing
      have kept : host.state.raised bidder amount ≤ host.state.highestBid := by
        rw [State.raised, nothing, UInt64.add_zero]
        cases found : host.state.bids.get? bidder with
        | none => exact UInt64.zero_le
        | some previous => exact before.below bidder previous found
      exact absurd (UInt64.lt_of_lt_of_le higher kept) (UInt64.lt_irrefl _)
    have positive : amount.toNat ≠ 0 := fun zero => something (UInt64.toNat_inj.mp zero)
    have funded : host.balance + amount.toNat ≠ 0 := by omega
    exact iff_of_false funded (by simp)

/-- Until the item is sold, the auction holds no money just when no bid has been
accepted. -/
theorem balance_zero_iff {parameter : Option InitParameter} {start : State}
    (started : auctionInit parameter = some start) (missingAccounts : List AccountAddress)
    (txs : List Transaction) :
    let host := { Host.deployed start with missingAccounts }
    let final := run (step owner) host txs
    final.state.auctionState = .notSoldYet →
      (final.balance = 0 ↔ acceptedBids owner host txs = []) := by
  intro host final
  have opens : final.state.auctionState = .notSoldYet →
      Open (acceptedBids owner host txs) final := by
    refine @run_history _ _ (step owner) (fun _ _ => True)
      (fun past host' => host'.state.auctionState = .notSoldYet →
        Open (acceptedBids owner host past) host') host txs ?_ ?_
      (along_of_mem (fun _ _ _ => trivial) host)
    · intro _
      obtain ⟨_, rfl, created⟩ := Option.bind_eq_some_iff.mp started
      cases created
      exact ⟨by simp [host, Host.deployed], iff_of_true rfl rfl⟩
    · intro past tx before _ unsold
      rw [acceptedBids_snoc]
      generalize run (step owner) host past = current at before unsold ⊢
      cases call : tx.entrypoint with
      | bid =>
          have bidding : tx.entrypoint ≠ .finalize := by simp [call]
          rcases @step_cases owner current tx (absurd · bidding) with
            ⟨none, same⟩ | ⟨bidder, added, higher, same⟩
          · rw [none, List.append_nil]
            rw [same] at unsold ⊢
            exact before unsold
          · rw [added]
            rw [same] at unsold ⊢
            exact (before unsold).bid higher
      | finalize =>
          have none : acceptedBid owner current tx = [] := by simp [acceptedBid, call]
          have same : step owner current tx = current := by
            by_cases finalizes : Finalizes owner current tx
            · obtain ⟨_, unpaid, after, returned⟩ := finalizes_iff.mp finalizes
              rw [step_finalize call unpaid returned] at unsold ⊢
              obtain ⟨_, _, body⟩ := auctionFinalize_ok.mp returned
              rcases body with ⟨_, rfl⟩ | ⟨_, winner, _, _, rfl⟩
              · rfl
              · cases unsold
            · exact step_stays finalizes call
          rw [none, List.append_nil]
          rw [same] at unsold ⊢
          exact before unsold
  exact fun unsold => (opens unsold).empty

/-- An auction is finalized once for its sale and once for each finalization that
finds no money, so at most once where there is none of these. -/
theorem finalized_once {parameter : Option InitParameter} {start : State}
    (started : auctionInit parameter = some start) (missingAccounts : List AccountAddress)
    (txs : List Transaction) :
    let host := { Host.deployed start with missingAccounts }
    let finalizations := countAlong (step owner) (Finalizes owner) host txs
    finalizations = countAlong (step owner) Unfunded host txs + sales (run (step owner) host txs) ∧
    (Along (step owner) (fun host tx => ¬ Unfunded host tx) host txs → finalizations ≤ 1) := by
  intro host finalizations
  have unsold : sales host = 0 := by
    obtain ⟨_, rfl, created⟩ := Option.bind_eq_some_iff.mp started
    cases created
    rfl
  have balance := countAlong_potential (step_sales owner) host txs
  rw [unsold, Nat.add_zero] at balance
  refine ⟨balance, fun funded => ?_⟩
  have bound := sales_le_one (run (step owner) host txs)
  have none := countAlong_eq_zero funded
  omega

namespace Clock

def start : State :=
  { auctionState := .notSoldYet, highestBid := 0, item := "clock", expiry := 10, bids := .empty }

def bids : Transaction := ⟨.account (.ofByte 1), 3, 5, .bid⟩

def finalizes : Transaction := ⟨.account (.ofByte 3), 11, 0, .finalize⟩

end Clock

theorem finalized_once_clock :
    countAlong (step (.ofByte 0)) (Finalizes (.ofByte 0)) (Host.deployed Clock.start)
      [Clock.bids, Clock.finalizes, Clock.finalizes] ≤ 1 := by
  have funded : Along (step (.ofByte 0)) (fun host tx => ¬ Unfunded host tx)
      (Host.deployed Clock.start) [Clock.bids, Clock.finalizes, Clock.finalizes] := by
    decide +kernel
  exact (@finalized_once (.ofByte 0) (some ⟨"clock", 10⟩) Clock.start rfl [] _).2 funded

/-- Nobody bids for the clock, and it is finalized twice. -/
theorem not_finalized_once_clock :
    auctionInit (some ⟨"clock", 10⟩) = some Clock.start ∧
    countAlong (step (.ofByte 0)) (Finalizes (.ofByte 0)) (Host.deployed Clock.start)
      [Clock.finalizes, Clock.finalizes] = 2 := by
  exact ⟨rfl, by decide +kernel⟩

end SmartContracts.Auction
