import SmartContracts.Voting.Deadline
import SmartContracts.Voting.Messages

namespace SmartContracts.Voting

open SmartContracts.Chain SmartContracts.Crypto SmartContracts.Data SmartContracts.Semantics

/-! # What a vote has paid out when it ends

Voters are refunded by `vote` one by one and by `change_phase` together, so
what an account receives depends on the whole run.  `Settled` states what the
two add up to; it holds of every run in which the contract is not aborted from
the vote phase after somebody has voted.
-/

variable (crypto : Primitives) (owner : AccountAddress)

structure Settled (start : Host VotingState) (txs : List Transaction) : Prop where
  result :
    (run (step crypto owner) start txs).state.votingPhase = .result →
    (run (step crypto owner) start txs).transfers.Perm
      (Payments.equal ((run (step crypto owner) start txs).state.honestAccounts Voter.vote)
        (run (step crypto owner) start txs).state.config.deposit)
  -- the transaction that aborts, its caller, and what the phase it ended required
  abort :
    (run (step crypto owner) start txs).state.votingPhase = .abort →
    ∃ past tx rest caller duty,
      txs = past ++ tx :: rest ∧ tx.call = .changePhase ∧ tx.sender = .account caller ∧
      (run (step crypto owner) start past).state.votingPhase.duty = some duty ∧
      (run (step crypto owner) start (past ++ [tx])).state.votingPhase = .abort ∧
      let final := run (step crypto owner) start txs
      final.transfers.Perm
        (Payments.equal (final.state.honestAccounts duty) final.state.config.deposit ++
          if caller ∉ final.state.stallingAccounts duty ∧ final.state.stallingAccounts duty ≠ []
          then [(caller, final.state.config.deposit)] else [])

/-- The transaction does not abort the vote after somebody has voted. -/
def SparesVoters (host : Host VotingState) (tx : Transaction) : Prop :=
  ∀ caller, tx.call = .changePhase → tx.amount = 0 → tx.sender = .account caller →
    host.state.votingPhase = .vote → tx.slotTime > host.state.config.voteTimeout →
    host.CanPay (host.state.refunds Voter.vote caller) →
    host.state.honestAccounts Voter.vote = []

variable {crypto owner} {host : Host VotingState}

/-- A step into `Abort` is a call of `change_phase` that pays all refunds. -/
theorem step_aborts (alive : host.state.votingPhase ≠ .abort) {tx : Transaction}
    (ends : (step crypto owner host tx).state.votingPhase = .abort) :
    ∃ caller duty, tx.call = .changePhase ∧ tx.amount = 0 ∧ tx.sender = .account caller ∧
      host.state.advance tx.slotTime = some .abort ∧
      host.state.votingPhase.duty = some duty ∧
      host.CanPay (host.state.refunds duty caller) ∧
      step crypto owner host tx = { host.paid (host.state.refunds duty caller) with
        state := host.state.withPhase .abort } := by
  cases step_cases crypto owner host tx with
  | rejected same => exact absurd (same ▸ ends) alive
  | registered _ _ _ _ _ _ _ _ _ _ _ _ after =>
      rw [after] at ends
      simp only [VotingState.registered] at ends
      split at ends
      · cases ends
      · exact absurd ends alive
  | committed _ _ _ _ _ _ _ _ _ _ after =>
      rw [after] at ends
      simp only [VotingState.committed] at ends
      split at ends
      · cases ends
      · exact absurd ends alive
  | voted _ _ _ _ _ _ _ _ _ _ _ _ _ _ _ _ _ after =>
      rw [after] at ends
      simp only [VotingState.voted] at ends
      split at ends
      · cases ends
      · exact absurd ends alive
  | tallied _ _ _ _ after =>
      rw [after] at ends
      exact absurd ends alive
  | moved caller call unpaid account moved =>
      have phase : (host.state.advance tx.slotTime).getD host.state.votingPhase = .abort := by
        rw [moved.state.1] at ends
        exact ends
      cases advanced : host.state.advance tx.slotTime with
      | none => exact absurd (by simpa [advanced] using phase) alive
      | some next =>
          rw [advanced, Option.getD_some] at phase
          subst phase
          rw [advanced] at moved
          obtain ⟨duty, stage, payable, after⟩ := moved
          exact ⟨caller, duty, call, unpaid, account, rfl, stage, payable, after⟩

theorem late_of_advance {state : VotingState} {now : Timestamp} (phase : state.votingPhase = .vote)
    (aborts : state.advance now = some .abort) : now > state.config.voteTimeout := by
  simp only [VotingState.advance, phase] at aborts
  split at aborts
  · cases aborts
  · split at aborts
    · assumption
    · cases aborts

/-- Where nobody had been refunded, aborting pays out exactly the settlement. -/
theorem unpaid_before_abort {start : Host VotingState} (begins : IsSetup start)
    (past : List Transaction) {tx : Transaction} {caller : AccountAddress} {duty : Voter → Bytes}
    (spares : SparesVoters (run (step crypto owner) start past) tx)
    (call : tx.call = .changePhase) (unpaid : tx.amount = 0) (account : tx.sender = .account caller)
    (aborts : (run (step crypto owner) start past).state.advance tx.slotTime = some .abort)
    (stage : (run (step crypto owner) start past).state.votingPhase.duty = some duty)
    (payable : (run (step crypto owner) start past).CanPay
      ((run (step crypto owner) start past).state.refunds duty caller)) :
    (run (step crypto owner) start past).transfers = [] := by
  have consistent : PhaseConsistent (run (step crypto owner) start past).state :=
    run_consistent begins past
  have alive : (run (step crypto owner) start past).state.votingPhase ≠ .abort := by
    intro ended
    simp [ended, VotingPhase.duty] at stage
  have nobody : (run (step crypto owner) start past).state.honestAccounts Voter.vote = [] := by
    cases phase : (run (step crypto owner) start past).state.votingPhase with
    | registration => exact consistent.nobody_voted (.inl phase)
    | commit => exact consistent.nobody_voted (.inr phase)
    | vote =>
        rw [phase, VotingPhase.duty, Option.some.injEq] at stage
        subst stage
        exact spares caller call unpaid account phase (late_of_advance phase aborts) payable
    | result => simp [phase, VotingPhase.duty] at stage
    | abort => exact absurd phase alive
  have refunded := (run_escrow begins past alive).refunded
  rw [nobody] at refunded
  exact refunded.eq_nil

/-- Every run that spares the voters who have voted ends settled. -/
theorem settled_of_run {start : Host VotingState} (begins : IsSetup start)
    {txs : List Transaction} (spares : Along (step crypto owner) SparesVoters start txs) :
    Settled crypto owner start txs := by
  refine ⟨fun tallied => (run_escrow begins txs (by simp [tallied])).refunded, ?_⟩
  refine @run_history _ _ (step crypto owner) SparesVoters
    (fun past host => host.state.votingPhase = .abort →
      ∃ before tx rest caller duty,
        past = before ++ tx :: rest ∧ tx.call = .changePhase ∧ tx.sender = .account caller ∧
        (run (step crypto owner) start before).state.votingPhase.duty = some duty ∧
        (run (step crypto owner) start (before ++ [tx])).state.votingPhase = .abort ∧
        host.transfers.Perm
          (Payments.equal (host.state.honestAccounts duty) host.state.config.deposit ++
            if caller ∉ host.state.stallingAccounts duty ∧ host.state.stallingAccounts duty ≠ []
            then [(caller, host.state.config.deposit)] else []))
    start txs ?_ ?_ spares
  · intro ended
    obtain ⟨_, state, _⟩ := begins.config
    rw [state] at ended
    cases ended
  · intro past tx record sparing ends
    by_cases ended : (run (step crypto owner) start past).state.votingPhase = .abort
    · obtain ⟨before, aborting, rest, caller, duty, split, settled⟩ := record ended
      rw [step_abort ended]
      exact ⟨before, aborting, rest ++ [tx], caller, duty, by simp [split], settled⟩
    · obtain ⟨caller, duty, call, unpaid, account, aborts, stage, payable, after⟩ :=
        step_aborts ended ends
      have nothing := unpaid_before_abort begins past sparing call unpaid account aborts stage
        payable
      refine ⟨past, tx, [], caller, duty, rfl, call, account, stage, by rwa [run_snoc], ?_⟩
      rw [after]
      simp only [Host.paid, nothing, List.nil_append, VotingState.refunds,
        VotingState.reward_eq]
      exact List.perm_append_comm

theorem settled_of_run_both_voted :
    (run (step smallPrimitives (Small.account 0)) Small.start Small.bothVoted).state.votingPhase =
      .result ∧
    Settled smallPrimitives (Small.account 0) Small.start Small.bothVoted := by
  have neverCalled : ∀ tx ∈ Small.bothVoted, tx.call ≠ .changePhase := by
    simp [Small.bothVoted, Small.firstVoted, Small.registers, Small.commits, Small.votes,
      Small.send]
  refine ⟨by decide +kernel, settled_of_run Small.start_isSetup (along_of_mem ?_ _)⟩
  exact fun tx member _ _ call => absurd call (neverCalled tx member)

/-- Aborting from the vote phase pays the voter who has voted a second time. -/
theorem not_settled_second_stalls :
    IsSetup Small.start ∧
    (Small.secondStalls.map Transaction.slotTime).Pairwise (· ≤ ·) ∧
    (run (step smallPrimitives (Small.account 0)) Small.start Small.secondStalls).transfers =
      [(Small.account 1, 5), (Small.account 1, 5)] ∧
    ¬ Settled smallPrimitives (Small.account 0) Small.start Small.secondStalls := by
  have outcome :
      let final := run (step smallPrimitives (Small.account 0)) Small.start Small.secondStalls
      let settlement := fun duty =>
        Payments.equal (final.state.honestAccounts duty) final.state.config.deposit ++
          if Small.account 2 ∉ final.state.stallingAccounts duty ∧
            final.state.stallingAccounts duty ≠ [] then
            [(Small.account 2, final.state.config.deposit)]
          else []
      final.transfers = [(Small.account 1, 5), (Small.account 1, 5)] ∧
      final.state.votingPhase = .abort ∧
      ¬ final.transfers.Perm (settlement Voter.votingKey) ∧
      ¬ final.transfers.Perm (settlement Voter.reconstructedKey) ∧
      ¬ final.transfers.Perm (settlement Voter.vote) := by
    decide +kernel
  obtain ⟨transfers, aborted, notRegistered, notCommitted, notVoted⟩ := outcome
  refine ⟨Small.start_isSetup, by decide, transfers, fun settled => ?_⟩
  obtain ⟨past, tx, rest, caller, duty, split, call, account, stage, _, paid⟩ :=
    settled.abort aborted
  have onlyCaller : ∀ tx ∈ Small.secondStalls, tx.call = .changePhase →
      tx.sender = .account (Small.account 2) := by
    simp [Small.secondStalls, Small.firstVoted, Small.registers, Small.commits, Small.votes,
      Small.send]
  have staller := onlyCaller tx (by simp [split]) call
  rw [account, Address.account.injEq] at staller
  subst staller
  cases phase : (run (step smallPrimitives (Small.account 0)) Small.start past).state.votingPhase
  all_goals simp only [phase, VotingPhase.duty, reduceCtorEq, Option.some.injEq] at stage
  case registration => exact notRegistered (stage ▸ paid)
  case commit => exact notCommitted (stage ▸ paid)
  case vote => exact notVoted (stage ▸ paid)

end SmartContracts.Voting
