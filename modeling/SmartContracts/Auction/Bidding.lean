import SmartContracts.Auction.Contract
import SmartContracts.Semantics.Runs

namespace SmartContracts.Auction

open SmartContracts.Chain SmartContracts.Data SmartContracts.Semantics

/-! # Runs of an auction

What an auction is for can be said about its accepted bids alone: an account's
bid is the sum of what it sent, and the last accepted bidder leads.  `Running`
relates the contract to this history, and every transaction keeps it.
-/

abbrev BidHistory := List (AccountAddress × Amount)

namespace BidHistory

def total (history : BidHistory) (bidder : AccountAddress) : ℕ :=
  ((history.filter (·.1 = bidder)).map (·.2.toNat)).sum

def bidders (history : BidHistory) : List AccountAddress := history.map Prod.fst

def leader (history : BidHistory) : Option AccountAddress := history.bidders.getLast?

variable {history : BidHistory} {bidder other : AccountAddress} {amount : Amount}

theorem total_snoc : BidHistory.total (history ++ [(bidder, amount)]) other =
    history.total other + if other = bidder then amount.toNat else 0 := by
  by_cases same : other = bidder
  · simp [total, same]
  · simp [total, same, Ne.symm same]

theorem total_of_not_bidder (absent : bidder ∉ history.bidders) : history.total bidder = 0 := by
  have none : history.filter (·.1 = bidder) = [] := by
    rw [List.filter_eq_nil_iff]
    intro bid member same
    exact absent (of_decide_eq_true same ▸ List.mem_map_of_mem member)
  simp [total, none]

theorem bidders_snoc :
    BidHistory.bidders (history ++ [(bidder, amount)]) = history.bidders ++ [bidder] := by
  simp [bidders]

@[simp] theorem leader_snoc :
    BidHistory.leader (history ++ [(bidder, amount)]) = some bidder := by
  simp [leader, bidders_snoc]

end BidHistory

inductive Entrypoint where
  | bid
  | finalize
deriving DecidableEq

structure Transaction where
  sender : Address
  slotTime : Timestamp
  amount : Amount
  entrypoint : Entrypoint

def Transaction.context (owner : AccountAddress) (tx : Transaction) : ReceiveContext :=
  { sender := tx.sender, owner, slotTime := tx.slotTime }

def step (owner : AccountAddress) (host : Host State) (tx : Transaction) : Host State :=
  match tx.entrypoint with
  | .bid => host.transact tx.amount (auctionBid (tx.context owner) tx.amount)
  | .finalize => host.transactUnpaid tx.amount (auctionFinalize (tx.context owner))

/-- The bid the transaction adds, when it is a bid and the contract accepts it. -/
def acceptedBid (owner : AccountAddress) (host : Host State) (tx : Transaction) : BidHistory :=
  match tx.entrypoint, tx.sender,
      (auctionBid (tx.context owner) tx.amount).run (host.receiving tx.amount) with
  | .bid, .account bidder, .ok _ _ => [(bidder, tx.amount)]
  | _, _, _ => []

def acceptedBids (owner : AccountAddress) : Host State → List Transaction → BidHistory
  | _, [] => []
  | host, tx :: rest => acceptedBid owner host tx ++ acceptedBids owner (step owner host tx) rest

variable {owner : AccountAddress} {host : Host State} {tx : Transaction}

theorem acceptedBids_snoc (past : List Transaction) :
    acceptedBids owner host (past ++ [tx]) =
      acceptedBids owner host past ++ acceptedBid owner (run (step owner) host past) tx := by
  induction past generalizing host with
  | nil => simp [acceptedBids]
  | cons first rest ih => simp [acceptedBids, ih]

/-- A transaction before the expiry leaves the host alone or adds one bid. -/
theorem step_cases (early : tx.entrypoint = .finalize → tx.slotTime ≤ host.state.expiry) :
    acceptedBid owner host tx = [] ∧ step owner host tx = host ∨
    ∃ bidder, acceptedBid owner host tx = [(bidder, tx.amount)] ∧
      host.state.raised bidder tx.amount > host.state.highestBid ∧
      step owner host tx =
        { host.receiving tx.amount with state := host.state.withBid bidder tx.amount } := by
  cases call : tx.entrypoint with
  | finalize =>
      left
      refine ⟨by simp [acceptedBid, call], ?_⟩
      simp only [step, call]
      rcases Host.transactUnpaid_cases host tx.amount (auctionFinalize (tx.context owner)) with
        same | ⟨_, _, returned⟩
      · exact same
      · have late := (auctionFinalize_ok.mp returned).2.1
        exact absurd late (UInt64.not_lt.mpr (early call))
  | bid =>
      cases outcome : (auctionBid (tx.context owner) tx.amount).run (host.receiving tx.amount) with
      | error failure stopped =>
          left
          refine ⟨?_, by simp [step, call, Host.transact, outcome]⟩
          simp only [acceptedBid, call, outcome]
          split <;> simp_all
      | ok result after =>
          right
          obtain ⟨_, _, bidder, sender, higher, rfl⟩ := auctionBid_ok.mp outcome
          have sent : tx.sender = .account bidder := sender
          refine ⟨bidder, by simp [acceptedBid, call, sent, outcome], higher, ?_⟩
          simp [step, call, Host.transact, outcome]

/-! ## The contract follows the history -/

structure Running (start : State) (history : BidHistory) (host : Host State) : Prop where
  notSold : host.state.auctionState = .notSoldYet
  expiry : host.state.expiry = start.expiry
  unpaid : host.transfers = []
  present : host.missingAccounts = []
  recorded : ∀ bidder amount, host.state.bids.get? bidder = some amount →
    amount.toNat = history.total bidder
  bidders : ∀ bidder, bidder ∈ host.state.bids.keys ↔ bidder ∈ history.bidders
  funded : host.balance = Payments.total host.state.bids.entries
  leading : ∀ leader, history.leader = some leader →
    host.state.bids.get? leader = some host.state.highestBid
  behind : ∀ other amount, host.state.bids.get? other = some amount →
    history.leader ≠ some other → amount < host.state.highestBid
  positive : history ≠ [] → 0 < host.state.highestBid

namespace Running

variable {start : State} {history : BidHistory}

theorem le_highestBid (running : Running start history host) {bidder : AccountAddress}
    {amount : Amount} (found : host.state.bids.get? bidder = some amount) :
    amount ≤ host.state.highestBid := by
  by_cases leads : history.leader = some bidder
  · have same := (running.leading bidder leads).symm.trans found
    exact UInt64.le_of_eq (Option.some.inj same).symm
  · exact UInt64.le_of_lt (running.behind bidder amount found leads)

theorem previous_total (running : Running start history host) (bidder : AccountAddress) :
    ((host.state.bids.get? bidder).getD 0).toNat = history.total bidder := by
  cases found : host.state.bids.get? bidder with
  | some amount => exact running.recorded bidder amount found
  | none =>
      have absent : bidder ∉ history.bidders := fun member =>
        OrderedMap.get?_eq_none.mp found ((running.bidders bidder).mpr member)
      exact (BidHistory.total_of_not_bidder absent).symm

theorem previous_le_balance (running : Running start history host) (bidder : AccountAddress) :
    ((host.state.bids.get? bidder).getD 0).toNat ≤ host.balance := by
  cases found : host.state.bids.get? bidder with
  | none => exact Nat.zero_le _
  | some amount =>
      rw [running.funded]
      apply List.le_sum_of_mem
      exact List.mem_map.mpr ⟨(bidder, amount), OrderedMap.get?_eq_some.mp found, rfl⟩

theorem funded_withBid (running : Running start history host) {bidder : AccountAddress}
    {amount : Amount} (fits : host.balance + amount.toNat < 2 ^ 64) :
    host.balance + amount.toNat =
      Payments.total (host.state.withBid bidder amount).bids.entries := by
  have raised : (host.state.raised bidder amount).toNat =
      ((host.state.bids.get? bidder).getD 0).toNat + amount.toNat := by
    have below := running.previous_le_balance bidder
    rw [State.raised, UInt64.toNat_add]
    omega
  have funded := running.funded
  simp only [Payments.total, State.withBid] at funded ⊢
  cases found : host.state.bids.get? bidder with
  | none =>
      rw [OrderedMap.sum_insert_fresh _ found, raised, found]
      simp only [Option.getD_none, UInt64.toNat_zero]
      omega
  | some old =>
      have replaced := OrderedMap.sum_insert_present
        (fun payment : AccountAddress × Amount => payment.2.toNat) found
        (host.state.raised bidder amount)
      rw [found, Option.getD_some] at raised
      simp only [raised] at replaced
      omega

/-- An accepted bid makes its bidder the one strict leader. -/
theorem bid (running : Running start history host) {bidder : AccountAddress} {amount : Amount}
    (higher : host.state.raised bidder amount > host.state.highestBid)
    (fits : host.balance + amount.toNat < 2 ^ 64) :
    Running start (history ++ [(bidder, amount)])
      { host.receiving amount with state := host.state.withBid bidder amount } := by
  refine ⟨running.notSold, running.expiry, running.unpaid, running.present, ?_, ?_,
    running.funded_withBid fits, ?_, ?_, ?_⟩
  · intro other found lookup
    simp only [State.withBid, OrderedMap.get?_insert] at lookup
    rw [BidHistory.total_snoc]
    by_cases same : other = bidder
    · subst same
      rw [if_pos rfl, Option.some.injEq] at lookup
      have below := running.previous_le_balance other
      rw [if_pos rfl, ← running.previous_total, ← lookup, State.raised, UInt64.toNat_add]
      omega
    · rw [if_neg same] at lookup ⊢
      exact running.recorded other found lookup
  · intro other
    rw [BidHistory.bidders_snoc, List.mem_append, List.mem_singleton, ← running.bidders other]
    simp only [OrderedMap.mem_keys, State.withBid, OrderedMap.get?_insert]
    by_cases same : other = bidder <;> simp [same]
  · intro leader leads
    rw [BidHistory.leader_snoc, Option.some.injEq] at leads
    subst leads
    exact OrderedMap.get?_insert_self
  · intro other found lookup trails
    have different : other ≠ bidder := fun same => trails (by simp [same])
    simp only [State.withBid, OrderedMap.get?_insert_other different] at lookup
    exact UInt64.lt_of_le_of_lt (running.le_highestBid lookup) higher
  · intro _
    exact UInt64.lt_of_le_of_lt (UInt64.zero_le) higher

theorem initially {parameter : Option InitParameter} {state : State}
    (started : auctionInit parameter = some state) : Running state [] (Host.deployed state) := by
  obtain ⟨param, rfl, created⟩ := Option.bind_eq_some_iff.mp started
  cases created
  exact ⟨rfl, rfl, rfl, rfl, by simp [Host.deployed], by simp [Host.deployed, OrderedMap.keys,
    BidHistory.bidders], rfl, by simp [BidHistory.leader, BidHistory.bidders],
    by simp [Host.deployed], by simp⟩

end Running

/-- Finalization is attempted only up to the expiry. -/
def Early (host : Host State) (tx : Transaction) : Prop :=
  tx.entrypoint = .finalize → tx.slotTime ≤ host.state.expiry

instance : Decidable (Early host tx) :=
  inferInstanceAs (Decidable (tx.entrypoint = .finalize → tx.slotTime ≤ host.state.expiry))

def amounts (txs : List Transaction) : ℕ := (txs.map (·.amount.toNat)).sum

theorem amounts_snoc (past : List Transaction) :
    amounts (past ++ [tx]) = amounts past + tx.amount.toNat := by
  simp [amounts]

theorem running_of_run {state : State} {txs : List Transaction}
    (started : Running state [] (Host.deployed state))
    (early : Along (step owner) Early (Host.deployed state) txs)
    (bounded : amounts txs < 2 ^ 64) :
    Running state (acceptedBids owner (Host.deployed state) txs)
      (run (step owner) (Host.deployed state) txs) := by
  have history := @run_history _ _ (step owner) Early
    (fun past host => amounts past < 2 ^ 64 →
      Running state (acceptedBids owner (Host.deployed state) past) host ∧
        host.balance ≤ amounts past)
    (Host.deployed state) txs (fun _ => ⟨started, Nat.zero_le _⟩) ?_ early
  · exact (history bounded).1
  · intro past tx before timely fits
    rw [amounts_snoc] at fits ⊢
    obtain ⟨running, paidIn⟩ := before (by omega)
    rw [acceptedBids_snoc]
    rcases step_cases timely with ⟨none, same⟩ | ⟨bidder, added, higher, after⟩
    · rw [none, same, List.append_nil]
      exact ⟨running, by omega⟩
    · rw [added, after]
      refine ⟨running.bid higher (by omega), ?_⟩
      change (run (step owner) (Host.deployed state) past).balance + tx.amount.toNat ≤ _
      omega

end SmartContracts.Auction
