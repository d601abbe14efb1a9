import SmartContracts.Auction.Bidding

namespace SmartContracts.Auction

open SmartContracts.Chain SmartContracts.Data SmartContracts.Semantics

/-! # Finalizing an auction

The bids below the highest are the refunds.  While an auction runs, the bid
that is left over is the leader's, so the refunds and the price paid to the
owner add up to the balance and finalization cannot fail.
-/

variable {owner winner : AccountAddress} {host : Host State} {start : State}
  {history : BidHistory}

namespace Running

theorem leader_of_ne_nil (bid : history ≠ []) : ∃ winner, history.leader = some winner := by
  cases last : history.leader with
  | some winner => exact ⟨winner, rfl⟩
  | none => simp_all [BidHistory.leader, BidHistory.bidders]

theorem winning_entry (running : Running start history host)
    (led : history.leader = some winner) :
    host.state.bids.entries.filter (¬ ·.2 < host.state.highestBid) =
      [(winner, host.state.highestBid)] := by
  have nodup : (host.state.bids.entries.filter (¬ ·.2 < host.state.highestBid)).Nodup :=
    (List.Nodup.of_map Prod.fst host.state.bids.keys_nodup).filter _
  have only : ∀ entry, entry ∈ host.state.bids.entries.filter (¬ ·.2 < host.state.highestBid) ↔
      entry ∈ [(winner, host.state.highestBid)] := by
    intro ⟨bidder, amount⟩
    simp only [List.mem_filter, ← OrderedMap.get?_eq_some, decide_eq_true_eq, List.mem_singleton,
      Prod.mk.injEq]
    constructor
    · intro ⟨found, highest⟩
      have leads : bidder = winner := by
        by_contra different
        exact highest (running.behind bidder amount found fun same =>
          different (Option.some.inj (same.symm.trans led)))
      subst leads
      exact ⟨rfl, Option.some.inj (found.symm.trans (running.leading bidder led))⟩
    · intro ⟨same, highest⟩
      subst same highest
      exact ⟨running.leading bidder led, UInt64.lt_irrefl _⟩
  have same := (List.perm_ext_iff_of_nodup nodup (List.nodup_singleton _)).mpr only
  exact List.perm_singleton.mp same

theorem mem_refunds (running : Running start history host)
    (led : history.leader = some winner) {bidder : AccountAddress} {amount : Amount} :
    (bidder, amount) ∈ host.state.refunds ↔
      bidder ∈ history.bidders ∧ bidder ≠ winner ∧ amount.toNat = history.total bidder := by
  simp only [State.refunds, List.mem_filter, ← OrderedMap.get?_eq_some, decide_eq_true_eq]
  constructor
  · intro ⟨found, below⟩
    refine ⟨(running.bidders bidder).mp (OrderedMap.mem_keys.mpr ⟨amount, found⟩), ?_,
      running.recorded bidder amount found⟩
    intro same
    subst same
    have highest := Option.some.inj (found.symm.trans (running.leading bidder led))
    exact UInt64.lt_irrefl _ (highest ▸ below)
  · intro ⟨bid, different, total⟩
    obtain ⟨found, lookup⟩ := OrderedMap.mem_keys.mp ((running.bidders bidder).mpr bid)
    have recorded := running.recorded bidder found lookup
    have same : found = amount := UInt64.toNat_inj.mp (recorded.trans total.symm)
    subst same
    exact ⟨lookup, running.behind bidder found lookup fun leads =>
      different (Option.some.inj (leads.symm.trans led))⟩

theorem settlement_total (running : Running start history host) (owner : AccountAddress)
    (led : history.leader = some winner) :
    Payments.total ((owner, host.state.highestBid) :: host.state.refunds) = host.balance := by
  have split := List.filter_append_perm (·.2 < host.state.highestBid) host.state.bids.entries
  have rest := running.winning_entry led
  simp only [decide_not] at rest
  rw [rest] at split
  have total := Payments.total_perm split
  simp only [Payments.total_append, Payments.total_cons, Payments.total_nil] at total
  simp only [Payments.total_cons, State.refunds, running.funded]
  omega

/-- Finalizing a running auction with a bid returns and leaves nothing behind. -/
theorem finalized (running : Running start history host)
    (led : history.leader = some winner) {ctx : ReceiveContext}
    (late : ctx.slotTime > start.expiry) :
    (auctionFinalize ctx).run host = .ok ()
      { host with
        balance := 0
        transfers := (ctx.owner, host.state.highestBid) :: host.state.refunds
        attempted := host.attempted ++ (ctx.owner, host.state.highestBid) :: host.state.refunds
        state := { host.state with auctionState := .sold winner } } := by
  have total := running.settlement_total ctx.owner led
  have nonempty : history ≠ [] := by
    intro empty
    simp [empty, BidHistory.leader, BidHistory.bidders] at led
  have funded : host.balance ≠ 0 := by
    have positive := UInt64.lt_iff_toNat_lt.mp (running.positive nonempty)
    simp only [Payments.total_cons] at total
    simp only [UInt64.toNat_zero] at positive
    omega
  have payable : host.CanPay ((ctx.owner, host.state.highestBid) :: host.state.refunds) :=
    ⟨by simp [running.present], total.le⟩
  refine auctionFinalize_ok.mpr ⟨running.notSold, running.expiry ▸ late, .inr
    ⟨funded, winner, running.winning_entry led, payable, ?_⟩⟩
  simp [Host.paid, running.unpaid, total]

end Running

/-- A sold auction never changes again. -/
theorem step_sold (sold : host.state.auctionState ≠ .notSoldYet) (tx : Transaction) :
    step owner host tx = host := by
  cases call : tx.entrypoint with
  | bid =>
      simp only [step, call, Host.transact]
      rw [@auctionBid_sold _ _ (host.receiving tx.amount) sold]
  | finalize =>
      simp only [step, call, Host.transactUnpaid, Host.transact]
      rw [@auctionFinalize_sold _ (host.receiving 0) sold]
      simp

theorem run_sold (sold : host.state.auctionState ≠ .notSoldYet) (txs : List Transaction) :
    run (step owner) host txs = host := by
  induction txs with
  | nil => rfl
  | cons tx rest ih => rw [run_cons, step_sold sold, ih]

/-! ## The whole auction -/

theorem accepted_raises {tx : Transaction} (early : Early host tx)
    (accepted : acceptedBid owner host tx ≠ []) :
    host.state.highestBid < (step owner host tx).state.highestBid := by
  rcases step_cases early with ⟨none, _⟩ | ⟨bidder, _, higher, after⟩
  · exact absurd none accepted
  · rw [after]
    exact higher

theorem refunds_nodup (state : State) : (state.refunds.map Prod.fst).Nodup :=
  state.bids.keys_nodup.sublist (List.filter_sublist.map _)

/-- From initialization through any bids to finalization and beyond. -/
theorem auction_end_to_end {parameter : Option InitParameter} {txs : List Transaction}
    (started : auctionInit parameter = some start)
    (early : Along (step owner) Early (Host.deployed start) txs)
    (bounded : amounts txs < 2 ^ 64)
    (bid : acceptedBids owner (Host.deployed start) txs ≠ []) :
    let history := acceptedBids owner (Host.deployed start) txs
    let host := run (step owner) (Host.deployed start) txs
    (∀ past tx rest, txs = past ++ tx :: rest →
      acceptedBid owner (run (step owner) (Host.deployed start) past) tx ≠ [] →
        (run (step owner) (Host.deployed start) past).state.highestBid <
          (run (step owner) (Host.deployed start) (past ++ [tx])).state.highestBid) ∧
    ∃ winner, history.leader = some winner ∧
      host.state.bids.get? winner = some host.state.highestBid ∧
      (∀ other amount, host.state.bids.get? other = some amount → other ≠ winner →
        amount < host.state.highestBid) ∧
      host.balance = Payments.total host.state.bids.entries ∧
      ∀ sender slotTime, slotTime > start.expiry →
        ∃ after refunds,
          (auctionFinalize { sender, owner, slotTime }).run host = .ok () after ∧
          after.transfers = (owner, host.state.highestBid) :: refunds ∧
          (refunds.map Prod.fst).Nodup ∧
          (∀ bidder amount, (bidder, amount) ∈ refunds ↔
            bidder ∈ history.bidders ∧ bidder ≠ winner ∧
              amount.toNat = history.total bidder) ∧
          after.balance = 0 ∧
          after.state.auctionState = .sold winner ∧
          ∀ later ctx amount,
            (auctionBid ctx amount).run ((run (step owner) after later).receiving amount) =
              .error (.reject .auctionFinalized) (after.receiving amount) ∧
            (auctionFinalize ctx).run (run (step owner) after later) =
              .error (.reject .auctionFinalized) after := by
  intro history host
  have running : Running start history host :=
    running_of_run (Running.initially started) early bounded
  refine ⟨?_, ?_⟩
  · intro past tx rest split accepted
    subst split
    obtain ⟨_, timely, _⟩ := along_append.mp early
    rw [run_snoc]
    exact accepted_raises timely accepted
  · obtain ⟨winner, led⟩ := Running.leader_of_ne_nil bid
    refine ⟨winner, led, running.leading winner led, ?_, running.funded, ?_⟩
    · intro other amount found different
      exact running.behind other amount found fun leads =>
        different (Option.some.inj (leads.symm.trans led))
    · intro sender slotTime late
      refine ⟨_, host.state.refunds, running.finalized led late, rfl, refunds_nodup host.state,
        fun bidder amount => running.mem_refunds led, rfl, rfl, ?_⟩
      intro later ctx amount
      rw [run_sold (by simp)]
      exact ⟨auctionBid_sold (by simp), auctionFinalize_sold (by simp)⟩

theorem auction_end_to_end_two_bids :
    let start : State :=
      { auctionState := .notSoldYet, highestBid := 0, item := "clock", expiry := 10,
        bids := .empty }
    let txs : List Transaction :=
      [⟨.account (.ofByte 1), 3, 5, .bid⟩, ⟨.account (.ofByte 2), 4, 7, .bid⟩]
    let host := run (step (.ofByte 0)) (Host.deployed start) txs
    ∃ after,
      (auctionFinalize ⟨.account (.ofByte 3), .ofByte 0, 11⟩).run host = .ok () after ∧
      after.balance = 0 ∧ after.state.auctionState = .sold (.ofByte 2) := by
  intro start txs host
  obtain ⟨_, winner, led, _, _, _, finalizing⟩ :=
    @auction_end_to_end (.ofByte 0) start (some ⟨"clock", 10⟩) txs rfl
      ⟨by decide, by decide, trivial⟩ (by decide) (List.ne_nil_of_length_pos (by decide))
  have last : winner = .ofByte 2 := (Option.some.inj led).symm
  obtain ⟨after, _, returned, _, _, _, empty, sold, _⟩ :=
    finalizing (.account (.ofByte 3)) 11 (by decide)
  exact ⟨after, returned, empty, last ▸ sold⟩

end SmartContracts.Auction
