import SmartContracts.Voting.Phases

namespace SmartContracts.Voting

open SmartContracts.Chain SmartContracts.Crypto SmartContracts.Data SmartContracts.Semantics

/-! # The deposits

Until a vote is aborted the contract holds one deposit for every voter who has
not voted, and has sent one back to every voter who has.
-/

structure Escrow (host : Host VotingState) : Prop where
  funded : host.balance =
    (host.state.stallingAccounts Voter.vote).length * host.state.config.deposit.toNat
  refunded : host.transfers.Perm
    (Payments.equal (host.state.honestAccounts Voter.vote) host.state.config.deposit)

namespace VotingState

variable {state : VotingState} {duty : Voter → Bytes} {sender : AccountAddress}

theorem length_stalling_add_honest :
    (state.stallingAccounts duty).length + (state.honestAccounts duty).length =
      state.voters.entries.length :=
  OrderedMap.length_keysWhere_add

theorem stallingAccounts_eq_nil :
    state.stallingAccounts duty = [] ↔ ∀ v ∈ state.voters.values, duty v ≠ [] :=
  OrderedMap.keysWhere_eq_nil

theorem honestAccounts_eq_nil :
    state.honestAccounts duty = [] ↔ ∀ v ∈ state.voters.values, duty v = [] := by
  simp only [honestAccounts, OrderedMap.keysWhere_eq_nil, not_not]

/-- The caller is rewarded when somebody stalled and it was not the caller. -/
theorem reward_eq : state.reward duty sender =
    if sender ∉ state.stallingAccounts duty ∧ state.stallingAccounts duty ≠ [] then
      [(sender, state.config.deposit)]
    else [] := by
  have sizes := @length_stalling_add_honest state duty
  have counted : state.voters.entries.length - (state.honestAccounts duty).length > 0 ↔
      state.stallingAccounts duty ≠ [] := by
    rw [← List.length_pos_iff]
    omega
  simp only [reward, counted]

theorem total_refunds : (state.refunds duty sender).total =
    ((state.honestAccounts duty).length +
      if sender ∉ state.stallingAccounts duty ∧ state.stallingAccounts duty ≠ [] then 1 else 0) *
      state.config.deposit.toNat := by
  rw [refunds, Payments.total_append, Payments.total_equal, reward_eq]
  split
  · simp only [Payments.total_cons, Payments.total_nil]
    ring
  · simp

end VotingState

namespace Escrow

variable {host : Host VotingState} {sender : AccountAddress} {voter : Voter}

theorem initially {start : Host VotingState} (begins : IsSetup start) : Escrow start := by
  obtain ⟨_, state, balance, transfers⟩ := begins.config
  refine ⟨?_, ?_⟩
  · rw [balance, state]
    exact (Nat.zero_mul _).symm
  · rw [transfers, state]
    exact List.Perm.refl _

theorem registered (escrow : Escrow host) {amount : Amount} {message : RegisterMessage}
    (deposit : host.state.config.deposit = amount)
    (fresh : host.state.voters.get? sender = none) :
    Escrow { host.receiving amount with state := host.state.registered sender message } := by
  have entered : ((host.state.registered sender message).stallingAccounts Voter.vote).Perm
      (sender :: host.state.stallingAccounts Voter.vote) :=
    OrderedMap.keysWhere_insert_fresh_perm fresh rfl
  have unvoted : (host.state.registered sender message).honestAccounts Voter.vote =
      host.state.honestAccounts Voter.vote :=
    OrderedMap.keysWhere_insert_fresh fresh (by simp [default])
  refine ⟨?_, ?_⟩
  · change host.balance + amount.toNat = _ * host.state.config.deposit.toNat
    rw [entered.length_eq, escrow.funded, deposit, List.length_cons]
    ring
  · simp only [unvoted]
    exact escrow.refunded

theorem committed (escrow : Escrow host) {message : CommitMessage}
    (found : host.state.voters.get? sender = some voter) :
    Escrow { host with state := host.state.committed sender voter message } := by
  have stalling : (host.state.committed sender voter message).stallingAccounts Voter.vote =
      host.state.stallingAccounts Voter.vote :=
    OrderedMap.keysWhere_insert_same found Iff.rfl
  have honest : (host.state.committed sender voter message).honestAccounts Voter.vote =
      host.state.honestAccounts Voter.vote :=
    OrderedMap.keysWhere_insert_same found Iff.rfl
  exact ⟨stalling ▸ escrow.funded, honest ▸ escrow.refunded⟩

theorem voted (escrow : Escrow host) {message : VoteMessage}
    (found : host.state.voters.get? sender = some voter) (unvoted : voter.vote = [])
    (cast : message.vote ≠ []) :
    Escrow { host.paid [(sender, host.state.config.deposit)] with
      state := host.state.voted sender voter message } := by
  have stalling : (host.state.stallingAccounts Voter.vote).Perm
      (sender :: (host.state.voted sender voter message).stallingAccounts Voter.vote) :=
    OrderedMap.keysWhere_insert_lose found unvoted cast
  have honest : ((host.state.voted sender voter message).honestAccounts Voter.vote).Perm
      (sender :: host.state.honestAccounts Voter.vote) :=
    OrderedMap.keysWhere_insert_gain found (not_not.mpr unvoted) cast
  refine ⟨?_, ?_⟩
  · change host.balance - (host.state.config.deposit.toNat + 0) =
      _ * host.state.config.deposit.toNat
    rw [escrow.funded, stalling.length_eq, List.length_cons]
    simp [Nat.add_mul]
  · have paidOut := honest.map fun account => (account, host.state.config.deposit)
    refine List.Perm.trans ?_ paidOut.symm
    exact (List.perm_append_singleton _ _).trans (escrow.refunded.cons _)

end Escrow

variable {crypto : Primitives} {owner : AccountAddress} {host : Host VotingState}

theorem step_escrow (escrow : Escrow host) (tx : Transaction)
    (alive : (step crypto owner host tx).state.votingPhase ≠ .abort) :
    Escrow (step crypto owner host tx) := by
  cases step_cases crypto owner host tx with
  | rejected same => rwa [same]
  | registered _ _ _ _ _ _ _ deposit _ fresh _ _ after =>
      rw [after]
      exact escrow.registered deposit fresh
  | committed _ _ _ _ _ _ _ _ _ found after =>
      rw [after]
      exact escrow.committed found
  | voted message _ _ _ _ _ _ _ _ _ found unvoted _ _ decoded _ _ after =>
      rw [after]
      refine escrow.voted found unvoted fun empty => ?_
      rw [empty, crypto.curve.decodePoint_nil] at decoded
      cases decoded
  | tallied _ _ _ _ after =>
      rw [after]
      exact ⟨escrow.funded, escrow.refunded⟩
  | moved _ _ _ _ moved =>
      rw [moved.state.1] at alive
      rw [moved.alive fun aborts => alive (by rw [aborts]; rfl)]
      exact ⟨escrow.funded, escrow.refunded⟩

theorem step_abort (ended : host.state.votingPhase = .abort) (tx : Transaction) :
    step crypto owner host tx = host := by
  cases step_cases crypto owner host tx with
  | rejected same => exact same
  | registered _ _ _ _ _ phase _ _ _ _ _ _ _ => exact absurd (ended.symm.trans phase) (by decide)
  | committed _ _ _ _ _ _ _ phase _ _ _ => exact absurd (ended.symm.trans phase) (by decide)
  | voted _ _ _ _ _ _ _ _ phase _ _ _ _ _ _ _ _ _ =>
      exact absurd (ended.symm.trans phase) (by decide)
  | tallied _ _ _ phase _ => exact absurd (ended.symm.trans phase) (by decide)
  | moved _ _ _ _ moved =>
      have stays : host.state.advance tx.slotTime = none := by
        simp [VotingState.advance, ended]
      rw [stays] at moved
      exact moved

theorem run_escrow {start : Host VotingState} (begins : IsSetup start) (txs : List Transaction) :
    (run (step crypto owner) start txs).state.votingPhase ≠ .abort →
      Escrow (run (step crypto owner) start txs) := by
  refine @run_invariant _ _ (step crypto owner)
    (fun host => host.state.votingPhase ≠ .abort → Escrow host) _
    (fun _ => Escrow.initially begins) ?_ txs
  intro host tx before alive
  have wasAlive : host.state.votingPhase ≠ .abort := by
    intro ended
    rw [step_abort ended] at alive
    exact alive ended
  exact step_escrow (before wasAlive) tx alive

theorem VotingState.length_stallingAccounts (state : VotingState) (duty : Voter → Bytes) :
    (state.stallingAccounts duty).length =
      (state.voters.values.filter (fun v => duty v = [])).length := by
  simp [stallingAccounts, OrderedMap.keysWhere, OrderedMap.values, List.filter_map,
    Function.comp_def]

theorem Escrow.unpaid {host : Host VotingState} (escrow : Escrow host) {sender : AccountAddress}
    {voter : Voter} (found : host.state.voters.get? sender = some voter)
    (unvoted : voter.vote = []) : sender ∉ host.transfers.map Prod.fst := by
  intro received
  have paidOut := (escrow.refunded.map Prod.fst).mem_iff.mp received
  rw [Payments.equal, List.map_map, Function.comp_def, List.map_id',
    VotingState.honestAccounts, OrderedMap.mem_keysWhere] at paidOut
  obtain ⟨other, located, voted⟩ := paidOut
  cases Option.some.inj (found.symm.trans located)
  exact voted unvoted

/-- The deposit of a voter who has not voted is there to be sent back. -/
theorem Escrow.covers {host : Host VotingState} (escrow : Escrow host) {sender : AccountAddress}
    {voter : Voter} (present : sender ∉ host.missingAccounts)
    (found : host.state.voters.get? sender = some voter) (unvoted : voter.vote = []) :
    host.CanPay [(sender, host.state.config.deposit)] := by
  have stalls : sender ∈ host.state.stallingAccounts Voter.vote :=
    OrderedMap.mem_keysWhere.mpr ⟨voter, found, unvoted⟩
  refine ⟨by simpa using present, ?_⟩
  rw [Payments.total_cons, Payments.total_nil, escrow.funded]
  exact Nat.le_mul_of_pos_left _ (List.length_pos_of_mem stalls)

/-- One deposit for every voter who has not voted is there until a vote is
aborted, so every refund by `vote` is covered, and none is made twice. -/
theorem escrow_of_run {start : Host VotingState} (begins : IsSetup start)
    (txs : List Transaction) :
    let host := run (step crypto owner) start txs
    (host.state.votingPhase ≠ .abort →
      host.balance = host.state.config.deposit.toNat *
        (host.state.voters.values.filter (fun v => v.vote = [])).length) ∧
    (host.state.votingPhase = .result → host.balance = 0) ∧
    (∀ ctx parameter stopped,
      (vote crypto ctx parameter).run host = .error (.reject .doTransfer) stopped →
      ∃ sender, ctx.sender = .account sender ∧ sender ∈ host.missingAccounts) ∧
    ∀ ctx parameter after, (vote crypto ctx parameter).run host = .ok () after →
      ∃ sender, ctx.sender = .account sender ∧
        after.transfers = host.transfers ++ [(sender, host.state.config.deposit)] ∧
        sender ∉ host.transfers.map Prod.fst := by
  intro host
  have escrow : host.state.votingPhase ≠ .abort → Escrow host := run_escrow begins txs
  refine ⟨fun alive => ?_, fun ended => ?_, fun ctx parameter stopped failed => ?_,
    fun ctx parameter after returned => ?_⟩
  · rw [(escrow alive).funded, VotingState.length_stallingAccounts, Nat.mul_comm]
  · have everyone : host.state.stallingAccounts Voter.vote = [] := by
      rw [VotingState.stallingAccounts_eq_nil]
      exact fun v member => (((run_consistent begins txs).tallying ended).2 v member).2.2
    rw [(escrow (by simp [ended])).funded, everyone, List.length_nil, Nat.zero_mul]
  · obtain ⟨sender, voter, account, phase, found, unvoted, unpayable⟩ := vote_doTransfer failed
    refine ⟨sender, account, ?_⟩
    by_contra present
    have alive : host.state.votingPhase ≠ .abort := by simp [phase]
    exact unpayable ((escrow alive).covers present found unvoted)
  · obtain ⟨_, sender, voter, _, account, phase, _, found, unvoted, _, _, _, rfl⟩ :=
      vote_ok.mp returned
    exact ⟨sender, account, rfl, (escrow (by simp [phase])).unpaid found unvoted⟩

theorem escrow_of_run_both_voted :
    (run (step smallPrimitives (Small.account 0)) Small.start Small.bothVoted).balance = 0 := by
  have ended : (run (step smallPrimitives (Small.account 0)) Small.start
      Small.bothVoted).state.votingPhase = .result := by
    decide +kernel
  exact (escrow_of_run Small.start_isSetup Small.bothVoted).2.1 ended

end SmartContracts.Voting
