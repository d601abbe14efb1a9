import SmartContracts.Chain.Payments
import SmartContracts.Data.OrderedMap

namespace SmartContracts.Auction

open SmartContracts.Chain SmartContracts.Data SmartContracts.Semantics

/-! # The auction contract

Accounts bid by sending money, and an account's bid is the sum of all it sent.
After the expiry anyone may finalize: the highest bid goes to the owner and
every other bid back to its bidder.
-/

inductive AuctionState where
  | notSoldYet
  | sold (winner : AccountAddress)
deriving DecidableEq

structure State where
  auctionState : AuctionState
  highestBid : Amount
  item : String
  expiry : Timestamp
  bids : OrderedMap AccountAddress Amount

structure InitParameter where
  item : String
  expiry : Timestamp

inductive BidError where
  | contractSender
  | bidTooLow
  | bidsOverWaitingForAuctionFinalization
  | auctionFinalized
deriving DecidableEq

inductive FinalizeError where
  | bidMapError
  | auctionStillActive
  | auctionFinalized
deriving DecidableEq

/-- A parameter that does not parse is the only way for initialization to fail. -/
def auctionInit (parameter : Option InitParameter) : Option State := do
  let parameter ← parameter
  return {
    auctionState := .notSoldYet
    highestBid := 0
    item := parameter.item
    expiry := parameter.expiry
    bids := .empty }

def auctionBid (ctx : ReceiveContext) (amount : Amount) : Receive BidError State Unit := do
  let state ← Receive.state
  Receive.ensure (state.auctionState = .notSoldYet) .auctionFinalized
  Receive.ensure (ctx.slotTime ≤ state.expiry) .bidsOverWaitingForAuctionFinalization
  let senderAddress ← Receive.senderAccount ctx .contractSender
  -- the entry is created, and raised, before the new bid is compared
  let bidToUpdate := (state.bids.get? senderAddress).getD 0 + amount
  let updated := { state with bids := state.bids.insert senderAddress bidToUpdate }
  Receive.setState updated
  Receive.ensure (bidToUpdate > state.highestBid) .bidTooLow
  Receive.setState { updated with highestBid := bidToUpdate }

/-- The loop over the bids: everything below the highest bid is sent back, and
at most one bid may remain. -/
def returnBids (highestBid : Amount) :
    List (AccountAddress × Amount) → Option (AccountAddress × Amount) →
      Receive FinalizeError State (Option (AccountAddress × Amount))
  | [], remainingBid => pure remainingBid
  | (addr, amnt) :: rest, remainingBid =>
      if amnt < highestBid then do
        Receive.transfer (fun _ => .bidMapError) addr amnt
        returnBids highestBid rest remainingBid
      else do
        Receive.ensure (remainingBid = none) .bidMapError
        returnBids highestBid rest (some (addr, amnt))

def auctionFinalize (ctx : ReceiveContext) : Receive FinalizeError State Unit := do
  let state ← Receive.state
  Receive.ensure (state.auctionState = .notSoldYet) .auctionFinalized
  Receive.ensure (ctx.slotTime > state.expiry) .auctionStillActive
  let balance ← Receive.selfBalance
  if balance = 0 then
    -- nobody bid: the call returns and the auction stays as it is
    pure ()
  else do
    Receive.transfer (fun _ => .bidMapError) ctx.owner state.highestBid
    let remainingBid ← returnBids state.highestBid state.bids.entries none
    match remainingBid with
    | some (addr, amount) =>
        Receive.ensure (amount = state.highestBid) .bidMapError
        Receive.setState { state with auctionState := .sold addr }
    | none => Receive.bail .bidMapError

/-! ## What each entrypoint can do -/

def State.raised (state : State) (bidder : AccountAddress) (amount : Amount) : Amount :=
  (state.bids.get? bidder).getD 0 + amount

def State.withBid (state : State) (bidder : AccountAddress) (amount : Amount) : State :=
  { state with
    bids := state.bids.insert bidder (state.raised bidder amount)
    highestBid := state.raised bidder amount }

/-- The bids that finalization sends back. -/
def State.refunds (state : State) : Payments :=
  state.bids.entries.filter (·.2 < state.highestBid)

variable {ctx : ReceiveContext} {amount : Amount} {before after : Host State}

theorem auctionBid_ok :
    (auctionBid ctx amount).run before = .ok () after ↔
      before.state.auctionState = .notSoldYet ∧ ctx.slotTime ≤ before.state.expiry ∧
      ∃ bidder, ctx.sender = .account bidder ∧
        before.state.raised bidder amount > before.state.highestBid ∧
        after = { before with state := before.state.withBid bidder amount } := by
  simp only [auctionBid, bind_ok, Receive.state_ok, Receive.ensure_ok, Receive.senderAccount_ok,
    Receive.setState_ok]
  constructor
  · rintro ⟨_, _, ⟨rfl, rfl⟩, _, _, ⟨unsold, rfl⟩, _, _, ⟨inTime, rfl⟩, bidder, _,
      ⟨sender, rfl⟩, _, _, rfl, _, _, ⟨higher, rfl⟩, rfl⟩
    exact ⟨unsold, inTime, bidder, sender, higher, rfl⟩
  · rintro ⟨unsold, inTime, bidder, sender, higher, rfl⟩
    exact ⟨_, _, ⟨rfl, rfl⟩, (), _, ⟨unsold, rfl⟩, (), _, ⟨inTime, rfl⟩, bidder, _,
      ⟨sender, rfl⟩, (), _, rfl, (), _, ⟨higher, rfl⟩, rfl⟩

/-- The loop goes through when at most one bid is not below the highest one;
that bid is its result. -/
theorem returnBids_ok {highestBid : Amount} {entries : List (AccountAddress × Amount)}
    {remaining result : Option (AccountAddress × Amount)} :
    (returnBids highestBid entries remaining).run before = .ok result after ↔
      before.CanPay (entries.filter (·.2 < highestBid)) ∧
      after = before.paid (entries.filter (·.2 < highestBid)) ∧
      result.toList = remaining.toList ++ entries.filter (¬ ·.2 < highestBid) := by
  induction entries generalizing before remaining with
  | nil =>
      have toList : result.toList = remaining.toList ↔ remaining = result := by
        cases result <;> cases remaining <;> simp [eq_comm]
      simp [returnBids, Host.canPay_nil, Host.paid_nil, toList, eq_comm, and_comm]
  | cons entry rest ih =>
      obtain ⟨addr, amnt⟩ := entry
      by_cases below : amnt < highestBid
      · rw [returnBids, if_pos below, Receive.pay_ok, ih]
        simp only [below, not_true_eq_false, decide_true, decide_false, List.filter_cons_of_pos,
          List.filter_cons_of_neg, Bool.false_eq_true, not_false_eq_true, Host.paid_paid,
          ← and_assoc, ← Host.canPay_append, List.singleton_append]
      · rw [returnBids, if_neg below]
        simp only [bind_ok, Receive.ensure_ok, ih, below, not_false_eq_true, decide_true,
          decide_false, List.filter_cons_of_pos, List.filter_cons_of_neg, Bool.false_eq_true]
        cases remaining with
        | none => simp
        | some other =>
            have tooMany : result.toList ≠
                other :: (addr, amnt) :: rest.filter (¬ ·.2 < highestBid) := by
              cases result <;> simp
            simpa using fun _ _ => tooMany

/-- Finalizing a funded auction pays the owner and returns every bid below the
highest; the one bid left over must be the highest. -/
theorem auctionFinalize_ok :
    (auctionFinalize ctx).run before = .ok () after ↔
      before.state.auctionState = .notSoldYet ∧ ctx.slotTime > before.state.expiry ∧
      (before.balance = 0 ∧ before = after ∨
        before.balance ≠ 0 ∧
        ∃ winner,
          before.state.bids.entries.filter (¬ ·.2 < before.state.highestBid) =
            [(winner, before.state.highestBid)] ∧
          before.CanPay ((ctx.owner, before.state.highestBid) :: before.state.refunds) ∧
          after = { before.paid ((ctx.owner, before.state.highestBid) :: before.state.refunds) with
            state := { before.state with auctionState := .sold winner } }) := by
  simp only [auctionFinalize, bind_ok, Receive.state_ok, Receive.ensure_ok,
    Receive.selfBalance_ok]
  constructor
  · rintro ⟨_, _, ⟨rfl, rfl⟩, _, _, ⟨unsold, rfl⟩, _, _, ⟨late, rfl⟩, _, _, ⟨rfl, rfl⟩, body⟩
    refine ⟨unsold, late, ?_⟩
    split at body
    · rename_i empty
      exact .inl ⟨empty, (pure_ok.mp body).2⟩
    · rename_i funded
      rw [Receive.pay_ok, bind_ok] at body
      obtain ⟨ownerPaid, remaining, settled, returned, final⟩ := body
      obtain ⟨refundable, rfl, leftOver⟩ := returnBids_ok.mp returned
      match remaining with
      | none => exact absurd final (by simp [Receive.bail_ok])
      | some (winner, amount) =>
          simp only [bind_ok, Receive.ensure_ok, Receive.setState_ok] at final
          obtain ⟨_, _, ⟨rfl, rfl⟩, rfl⟩ := final
          refine .inr ⟨funded, winner, leftOver.symm,
            Host.canPay_cons.mpr ⟨ownerPaid, refundable⟩, ?_⟩
          rw [Host.paid_paid]
          rfl
  · rintro ⟨unsold, late, body⟩
    refine ⟨_, _, ⟨rfl, rfl⟩, (), _, ⟨unsold, rfl⟩, (), _, ⟨late, rfl⟩, _, _, ⟨rfl, rfl⟩, ?_⟩
    rcases body with ⟨empty, rfl⟩ | ⟨funded, winner, leftOver, payable, rfl⟩
    · rw [if_pos empty]
      exact pure_ok.mpr ⟨rfl, rfl⟩
    · obtain ⟨ownerPaid, refundable⟩ := Host.canPay_cons.mp payable
      rw [if_neg funded, Receive.pay_ok, bind_ok]
      refine ⟨ownerPaid, some (winner, before.state.highestBid), _,
        returnBids_ok.mpr ⟨refundable, rfl, leftOver.symm⟩, ?_⟩
      simp only [bind_ok, Receive.ensure_ok, Receive.setState_ok]
      refine ⟨(), _, ⟨trivial, rfl⟩, ?_⟩
      rw [Host.paid_paid]
      rfl

/-- Once the item is sold, bidding and finalizing are both turned away. -/
theorem auctionBid_sold (sold : before.state.auctionState ≠ .notSoldYet) :
    (auctionBid ctx amount).run before = .error (.reject .auctionFinalized) before := by
  have guard : (Receive.ensure (before.state.auctionState = .notSoldYet)
      BidError.auctionFinalized : Receive BidError State Unit).run before =
        .error (.reject .auctionFinalized) before := by
    rw [Receive.ensure, if_neg sold]
    rfl
  exact bind_error.mpr (.inr ⟨_, _, Receive.state_ok.mpr ⟨rfl, rfl⟩,
    bind_error.mpr (.inl guard)⟩)

theorem auctionFinalize_sold (sold : before.state.auctionState ≠ .notSoldYet) :
    (auctionFinalize ctx).run before = .error (.reject .auctionFinalized) before := by
  have guard : (Receive.ensure (before.state.auctionState = .notSoldYet)
      FinalizeError.auctionFinalized : Receive FinalizeError State Unit).run before =
        .error (.reject .auctionFinalized) before := by
    rw [Receive.ensure, if_neg sold]
    rfl
  exact bind_error.mpr (.inr ⟨_, _, Receive.state_ok.mpr ⟨rfl, rfl⟩,
    bind_error.mpr (.inl guard)⟩)

end SmartContracts.Auction
