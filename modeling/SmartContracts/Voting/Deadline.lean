import SmartContracts.Voting.Escrow
import SmartContracts.Voting.Messages

namespace SmartContracts.Voting

open SmartContracts.Chain SmartContracts.Crypto SmartContracts.Data SmartContracts.Semantics

/-! # Moving on after a deadline

After the deadline of a phase a call of `change_phase` aborts the vote, or
starts it when enough voters registered.  It fails only when the money that is
left does not cover what it pays, and that happens only in the vote phase,
where the voters who have voted were already refunded.
-/

def VotingState.Overdue (state : VotingState) (now : Timestamp) : Prop :=
  match state.votingPhase with
  | .registration => now > state.config.registrationTimeout
  | .commit => now > state.config.commitTimeout
  | .vote => now > state.config.voteTimeout
  | .result => False
  | .abort => False

namespace PhaseConsistent

variable {state : VotingState} {now : Timestamp}

theorem advance_overdue (consistent : PhaseConsistent state) (overdue : state.Overdue now) :
    state.advance now = some .abort ∨
      state.votingPhase = .registration ∧ state.advance now = some .commit := by
  unfold VotingState.Overdue at overdue
  rcases consistent.advance_cases now with stays | ⟨phase, next, _⟩ | ⟨_, next⟩
  · exfalso
    unfold VotingState.advance at stays
    cases phase : state.votingPhase <;> simp only [phase] at overdue stays
    case registration => split at stays <;> simp_all
    case commit => split at stays <;> simp_all
    case vote => split at stays <;> simp_all
  · exact .inr ⟨phase, next⟩
  · exact .inl next

theorem nobody_voted (consistent : PhaseConsistent state)
    (early : state.votingPhase = .registration ∨ state.votingPhase = .commit) :
    state.honestAccounts Voter.vote = [] := by
  rw [VotingState.honestAccounts_eq_nil]
  intro v inside
  rcases early with phase | phase
  · exact (consistent.registering phase v inside).2.2
  · exact ((consistent.committing phase).1 v inside).1

end PhaseConsistent

variable {crypto : Primitives} {owner sender : AccountAddress} {host : Host VotingState}

/-- Before anyone was refunded every deposit is there to be paid out. -/
theorem covered_early (consistent : PhaseConsistent host.state) (escrow : Escrow host)
    (early : host.state.votingPhase = .registration ∨ host.state.votingPhase = .commit)
    (duty : Voter → Bytes) :
    (host.state.refunds duty sender).total ≤ host.balance := by
  have voters := @VotingState.length_stalling_add_honest host.state Voter.vote
  have accounts := @VotingState.length_stalling_add_honest host.state duty
  rw [consistent.nobody_voted early, List.length_nil] at voters
  rw [VotingState.total_refunds, escrow.funded]
  apply Nat.mul_le_mul_right
  split
  · rename_i rewarded
    have stalled := List.length_pos_iff.mpr rewarded.2
    omega
  · omega

/-- What aborting from the vote phase costs, against what is left. -/
theorem covered_vote (consistent : PhaseConsistent host.state) (escrow : Escrow host)
    (phase : host.state.votingPhase = .vote) :
    (host.state.refunds Voter.vote sender).total ≤ host.balance ↔
      ((host.state.honestAccounts Voter.vote).length +
          if sender ∈ host.state.stallingAccounts Voter.vote then 0 else 1) *
        host.state.config.deposit.toNat ≤
      (host.state.stallingAccounts Voter.vote).length * host.state.config.deposit.toNat := by
  have stalled : host.state.stallingAccounts Voter.vote ≠ [] := by
    intro none
    obtain ⟨v, inside, missing⟩ := (consistent.voting phase).2
    exact VotingState.stallingAccounts_eq_nil.mp none v inside missing
  rw [VotingState.total_refunds, escrow.funded]
  by_cases stalls : sender ∈ host.state.stallingAccounts Voter.vote
  · simp [stalls]
  · simp [stalls, stalled]

/-- Only in the vote phase can an abort cost more than is left. -/
theorem covered_iff (consistent : PhaseConsistent host.state) (escrow : Escrow host)
    {duty : Voter → Bytes} (stage : host.state.votingPhase.duty = some duty) :
    (host.state.refunds duty sender).total ≤ host.balance ↔
      (host.state.votingPhase = .vote →
        ((host.state.honestAccounts Voter.vote).length +
            if sender ∈ host.state.stallingAccounts Voter.vote then 0 else 1) *
          host.state.config.deposit.toNat ≤
        (host.state.stallingAccounts Voter.vote).length * host.state.config.deposit.toNat) := by
  cases phase : host.state.votingPhase with
  | registration => simp [covered_early consistent escrow (.inl phase) duty]
  | commit => simp [covered_early consistent escrow (.inr phase) duty]
  | vote =>
      rw [phase, VotingPhase.duty, Option.some.injEq] at stage
      subst stage
      exact (covered_vote consistent escrow phase).trans (by simp)
  | result => simp [phase, VotingPhase.duty] at stage
  | abort => simp [phase, VotingPhase.duty] at stage

theorem changePhase_aborted {after : Host VotingState} {slotTime : Timestamp}
    (aborts : host.state.advance slotTime = some .abort)
    (returned : (changePhase ⟨.account sender, owner, slotTime⟩).run host = .ok () after) :
    after.state.votingPhase = .abort := by
  obtain ⟨_, _, moved⟩ := changePhase_ok.mp returned
  rw [moved.state.1, aborts]
  rfl

/-- An abort goes through exactly when its refunds are covered. -/
theorem changePhase_aborts_iff {slotTime : Timestamp} {duty : Voter → Bytes}
    (present : host.missingAccounts = []) (aborts : host.state.advance slotTime = some .abort)
    (stage : host.state.votingPhase.duty = some duty) :
    (∃ after, (changePhase ⟨.account sender, owner, slotTime⟩).run host = .ok () after) ↔
      (host.state.refunds duty sender).total ≤ host.balance := by
  refine ⟨fun returns => ?_, fun covered => ?_⟩
  · obtain ⟨after, returned⟩ := returns
    obtain ⟨caller, account, moved⟩ := changePhase_ok.mp returned
    cases Address.account.inj account
    simp only [aborts] at moved
    obtain ⟨due, same, payable, _⟩ := moved
    cases Option.some.inj (stage.symm.trans same)
    exact payable.covered
  · have payable : host.CanPay (host.state.refunds duty sender) := ⟨by simp [present], covered⟩
    refine ⟨{ host.paid (host.state.refunds duty sender) with
      state := host.state.withPhase .abort }, changePhase_ok.mpr ⟨sender, rfl, ?_⟩⟩
    simp only [aborts]
    exact ⟨duty, stage, payable, rfl⟩

/-- After its deadline a phase is left unless the vote phase has paid out too much. -/
theorem changePhase_moves_iff {start : Host VotingState} (begins : IsSetup start)
    (present : start.missingAccounts = []) (txs : List Transaction) (sender : AccountAddress)
    (slotTime : Timestamp) :
    let host := run (step crypto owner) start txs
    host.state.Overdue slotTime →
      ((∃ after, (changePhase ⟨.account sender, owner, slotTime⟩).run host = .ok () after ∧
          after.state.votingPhase ≠ host.state.votingPhase) ↔
        (host.state.votingPhase = .vote →
          ((host.state.honestAccounts Voter.vote).length +
              if sender ∈ host.state.stallingAccounts Voter.vote then 0 else 1) *
            host.state.config.deposit.toNat ≤
          (host.state.stallingAccounts Voter.vote).length *
            host.state.config.deposit.toNat)) := by
  intro host overdue
  have consistent : PhaseConsistent host.state := run_consistent begins txs
  have everyone : host.missingAccounts = [] := by
    refine @run_invariant _ _ (step crypto owner) (fun host => host.missingAccounts = []) _
      present (fun before tx same => ?_) txs
    rw [(step_fixed before tx).2, same]
  have alive : host.state.votingPhase ≠ .abort := by
    intro ended
    simp [VotingState.Overdue, ended] at overdue
  have escrow : Escrow host := run_escrow begins txs alive
  rcases consistent.advance_overdue overdue with aborts | ⟨phase, opens⟩
  · have stage : ∃ duty, host.state.votingPhase.duty = some duty := by
      cases phase : host.state.votingPhase with
      | registration => exact ⟨_, rfl⟩
      | commit => exact ⟨_, rfl⟩
      | vote => exact ⟨_, rfl⟩
      | result => simp [VotingState.Overdue, phase] at overdue
      | abort => exact absurd phase alive
    obtain ⟨duty, stage⟩ := stage
    rw [← covered_iff consistent escrow stage,
      ← @changePhase_aborts_iff owner _ _ _ _ everyone aborts stage]
    refine ⟨fun moves => ?_, fun returns => ?_⟩
    · obtain ⟨after, returned, _⟩ := moves
      exact ⟨after, returned⟩
    · obtain ⟨after, returned⟩ := returns
      exact ⟨after, returned, changePhase_aborted aborts returned ▸ alive.symm⟩
  · refine ⟨fun _ vote => absurd (phase.symm.trans vote) (by decide), fun _ => ?_⟩
    refine ⟨{ host with state := host.state.withPhase .commit },
      changePhase_ok.mpr ⟨sender, rfl, ?_⟩, ?_⟩
    · simp only [opens]
      rfl
    · simp [VotingState.withPhase, phase]

theorem changePhase_moves_for_staller :
    ∃ after, (changePhase ⟨.account (Small.account 2), Small.account 0, 31⟩).run
        (run (step smallPrimitives (Small.account 0)) Small.start Small.firstVoted) =
        .ok () after ∧
      after.state.votingPhase = .abort := by
  have outcome :
      let host := run (step smallPrimitives (Small.account 0)) Small.start Small.firstVoted
      host.state.votingPhase = .vote ∧ 31 > host.state.config.voteTimeout ∧
      host.state.advance 31 = some .abort ∧
      ((host.state.honestAccounts Voter.vote).length +
          if Small.account 2 ∈ host.state.stallingAccounts Voter.vote then 0 else 1) *
        host.state.config.deposit.toNat ≤
      (host.state.stallingAccounts Voter.vote).length * host.state.config.deposit.toNat := by
    decide +kernel
  have moves := @changePhase_moves_iff smallPrimitives (Small.account 0) Small.start
    Small.start_isSetup rfl Small.firstVoted (Small.account 2) 31
  revert outcome moves
  generalize run (step smallPrimitives (Small.account 0)) Small.start Small.firstVoted = host
  intro ⟨phase, late, aborts, covered⟩ moves
  have overdue : host.state.Overdue 31 := by
    simp only [VotingState.Overdue, phase]
    exact late
  obtain ⟨after, returned, _⟩ := (moves overdue).mpr fun _ => covered
  exact ⟨after, returned, changePhase_aborted aborts returned⟩

/-- One of two voters has voted and an outsider calls: two deposits are due and
only one is left. -/
theorem changePhase_stuck_for_outsider :
    IsSetup Small.start ∧ Small.start.missingAccounts = [] ∧
    (run (step smallPrimitives (Small.account 0)) Small.start Small.firstVoted).state.Overdue 31 ∧
    ¬ ∃ after, (changePhase ⟨.account (Small.account 3), Small.account 0, 31⟩).run
        (run (step smallPrimitives (Small.account 0)) Small.start Small.firstVoted) =
      .ok () after := by
  have outcome :
      let host := run (step smallPrimitives (Small.account 0)) Small.start Small.firstVoted
      host.state.votingPhase = .vote ∧ 31 > host.state.config.voteTimeout ∧
      host.state.advance 31 = some .abort ∧ host.missingAccounts = [] ∧
      ¬ (host.state.refunds Voter.vote (Small.account 3)).total ≤ host.balance := by
    decide +kernel
  refine ⟨Small.start_isSetup, rfl, ?_⟩
  revert outcome
  generalize run (step smallPrimitives (Small.account 0)) Small.start Small.firstVoted = host
  intro outcome
  obtain ⟨phase, late, aborts, present, short⟩ := outcome
  have overdue : host.state.Overdue 31 := by
    simp only [VotingState.Overdue, phase]
    exact late
  have stage : host.state.votingPhase.duty = some Voter.vote := by rw [phase]; rfl
  exact ⟨overdue, fun returns => short ((changePhase_aborts_iff present aborts stage).mp returns)⟩

end SmartContracts.Voting
