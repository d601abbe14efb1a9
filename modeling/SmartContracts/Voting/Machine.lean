import SmartContracts.Semantics.Runs
import SmartContracts.Voting.Calls

namespace SmartContracts.Voting

open SmartContracts.Chain SmartContracts.Crypto SmartContracts.Data SmartContracts.Semantics

/-! # The voting contract as a machine

Transactions drive the contract from the state `setup` leaves.  `Step` lists
what one transaction can do; the invariants that follow are proved from it.
-/

inductive Call where
  | register (parameter : Option RegisterMessage)
  | commit (parameter : Option CommitMessage)
  | vote (parameter : Option VoteMessage)
  | result (energy : ℕ)
  | changePhase

structure Transaction where
  sender : Address
  slotTime : Timestamp
  amount : Amount
  call : Call

def Transaction.context (owner : AccountAddress) (tx : Transaction) : ReceiveContext :=
  { sender := tx.sender, owner, slotTime := tx.slotTime }

section Machine

variable (crypto : Primitives) (owner : AccountAddress)

/-- Only `register` is payable. -/
def step (host : Host VotingState) (tx : Transaction) : Host VotingState :=
  match tx.call with
  | .register parameter =>
      host.transact tx.amount (register crypto (tx.context owner) tx.amount parameter)
  | .commit parameter => host.transactUnpaid tx.amount (commit (tx.context owner) parameter)
  | .vote parameter => host.transactUnpaid tx.amount (vote crypto (tx.context owner) parameter)
  | .result energy => host.transactUnpaid tx.amount (result crypto energy)
  | .changePhase => host.transactUnpaid tx.amount (changePhase (tx.context owner))

/-- A contract freshly set up on a chain without some accounts. -/
def IsSetup (start : Host VotingState) : Prop :=
  ∃ slotTime parameter state missing, setup slotTime parameter = .ok state ∧
    start = { Host.deployed state with missingAccounts := missing }

inductive Step (before : Host VotingState) (tx : Transaction) (after : Host VotingState) :
    Prop where
  | rejected (host : after = before)
  | registered (message : RegisterMessage) (sender : AccountAddress) (key : crypto.Point)
      (call : tx.call = .register (some message)) (account : tx.sender = .account sender)
      (phase : before.state.votingPhase = .registration)
      (verified : verifyMerkleProof crypto before.state.config.merkleRoot
        before.state.config.merkleLeafCount message.merkleProof sender = some true)
      (deposit : before.state.config.deposit = tx.amount)
      (inTime : tx.slotTime ≤ before.state.config.registrationTimeout)
      (fresh : before.state.voters.get? sender = none)
      (decoded : crypto.curve.decodePoint message.votingKey = some key)
      (proved : verifySchnorrZkp crypto key message.votingKeyZkp = some true)
      (host : after =
        { before.receiving tx.amount with state := before.state.registered sender message })
  | committed (message : CommitMessage) (sender : AccountAddress) (voter : Voter)
      (call : tx.call = .commit (some message)) (account : tx.sender = .account sender)
      (hashed : message.commitment ≠ []) (keyed : message.reconstructedKey ≠ [])
      (phase : before.state.votingPhase = .commit)
      (inTime : tx.slotTime ≤ before.state.config.commitTimeout)
      (found : before.state.voters.get? sender = some voter)
      (host : after = { before with state := before.state.committed sender voter message })
  | voted (message : VoteMessage) (sender : AccountAddress) (voter : Voter)
      (gY votePoint : crypto.Point)
      (call : tx.call = .vote (some message)) (account : tx.sender = .account sender)
      (unpaid : tx.amount = 0) (phase : before.state.votingPhase = .vote)
      (inTime : tx.slotTime ≤ before.state.config.voteTimeout)
      (found : before.state.voters.get? sender = some voter) (unvoted : voter.vote = [])
      (keyed : crypto.curve.decodePoint voter.reconstructedKey = some gY)
      (proved : verifyOneInTwoZkp crypto message.voteZkp gY = some true)
      (decoded : crypto.curve.decodePoint message.vote = some votePoint)
      (committed : checkCommitment crypto votePoint voter.commitment = true)
      (payable : before.CanPay [(sender, before.state.config.deposit)])
      (host : after = { before.paid [(sender, before.state.config.deposit)] with
        state := before.state.voted sender voter message })
  | tallied (energy : ℕ) (tally : Int32 × Int32) (call : tx.call = .result energy)
      (phase : before.state.votingPhase = .result)
      (host : after = { before with state := { before.state with votingResult := tally } })
  | moved (sender : AccountAddress) (call : tx.call = .changePhase) (unpaid : tx.amount = 0)
      (account : tx.sender = .account sender)
      (host : Moved sender before after (before.state.advance tx.slotTime))

end Machine

theorem step_cases (crypto : Primitives) (owner : AccountAddress) (host : Host VotingState)
    (tx : Transaction) :
    Step crypto host tx (step crypto owner host tx) := by
  cases call : tx.call with
  | register parameter =>
      simp only [step, call]
      rcases Host.transact_cases host tx.amount
        (register crypto (tx.context owner) tx.amount parameter) with same | ⟨_, returned⟩
      · exact .rejected same
      · obtain ⟨message, sender, parsed, account, phase, verified, deposit, inTime, fresh,
          ⟨key, decoded, proved⟩, after⟩ := register_ok.mp returned
        exact .registered message sender key (parsed ▸ call) account phase verified deposit inTime
          fresh decoded proved after
  | commit parameter =>
      simp only [step, call]
      rcases Host.transactUnpaid_cases host tx.amount (commit (tx.context owner) parameter) with
        same | ⟨_, _, returned⟩
      · exact .rejected same
      · obtain ⟨message, sender, voter, parsed, account, hashed, keyed, phase, inTime, found,
          after⟩ := commit_ok.mp returned
        exact .committed message sender voter (parsed ▸ call) account hashed keyed phase inTime
          found after
  | vote parameter =>
      simp only [step, call]
      rcases Host.transactUnpaid_cases host tx.amount (vote crypto (tx.context owner) parameter)
        with same | ⟨unpaid, _, returned⟩
      · exact .rejected same
      · obtain ⟨message, sender, voter, parsed, account, phase, inTime, found, unvoted,
          ⟨gY, keyed, proved⟩, ⟨votePoint, decoded, committed⟩, payable, after⟩ :=
            vote_ok.mp returned
        exact .voted message sender voter gY votePoint (parsed ▸ call) account unpaid phase inTime
          found unvoted keyed proved decoded committed payable after
  | result energy =>
      simp only [step, call]
      rcases Host.transactUnpaid_cases host tx.amount (result crypto energy) with
        same | ⟨_, tally, returned⟩
      · exact .rejected same
      · obtain ⟨phase, _, _, _, _, _, after⟩ := result_ok.mp returned
        exact .tallied energy tally call phase after
  | changePhase =>
      simp only [step, call]
      rcases Host.transactUnpaid_cases host tx.amount (changePhase (tx.context owner)) with
        same | ⟨unpaid, _, returned⟩
      · exact .rejected same
      · obtain ⟨sender, account, moved⟩ := changePhase_ok.mp returned
        exact .moved sender call unpaid account moved

/-! ## Where a vote starts -/

theorem IsSetup.config {start : Host VotingState} (begins : IsSetup start) :
    ∃ config, start.state = { config, votingPhase := .registration, votingResult := (-1, -1),
                              voters := .empty } ∧
      start.balance = 0 ∧ start.transfers = [] := by
  obtain ⟨_, _, _, _, accepted, rfl⟩ := begins
  obtain ⟨config, _, _, _, _, rfl⟩ := setup_ok.mp accepted
  exact ⟨config, rfl, rfl, rfl⟩

/-- Nobody has registered yet. -/
theorem IsSetup.forall_voters {start : Host VotingState} (begins : IsSetup start)
    {holds : Voter → Prop} : ∀ v ∈ start.state.voters.values, holds v := by
  obtain ⟨_, state, _⟩ := begins.config
  rw [state]
  exact fun v member => absurd member List.not_mem_nil

/-! ## What no step changes -/

variable {crypto : Primitives} {owner : AccountAddress}

theorem Moved.state {sender : AccountAddress} {before after : Host VotingState}
    {phase : Option VotingPhase} (moved : Moved sender before after phase) :
    after.state = before.state.withPhase (phase.getD before.state.votingPhase) ∧
      after.missingAccounts = before.missingAccounts := by
  cases phase with
  | none => exact moved ▸ ⟨rfl, rfl⟩
  | some next =>
      cases next with
      | abort =>
          obtain ⟨_, _, _, host⟩ := moved
          exact host ▸ ⟨rfl, rfl⟩
      | registration => exact moved ▸ ⟨rfl, rfl⟩
      | commit => exact moved ▸ ⟨rfl, rfl⟩
      | vote => exact moved ▸ ⟨rfl, rfl⟩
      | result => exact moved ▸ ⟨rfl, rfl⟩

theorem Moved.alive {sender : AccountAddress} {before after : Host VotingState}
    {phase : Option VotingPhase} (moved : Moved sender before after phase)
    (alive : phase ≠ some .abort) :
    after = { before with
      state := before.state.withPhase (phase.getD before.state.votingPhase) } := by
  cases phase with
  | none => exact moved
  | some next =>
      cases next with
      | abort => exact absurd rfl alive
      | registration => exact moved
      | commit => exact moved
      | vote => exact moved
      | result => exact moved

theorem step_fixed (host : Host VotingState) (tx : Transaction) :
    (step crypto owner host tx).state.config = host.state.config ∧
      (step crypto owner host tx).missingAccounts = host.missingAccounts := by
  cases step_cases crypto owner host tx with
  | rejected same => rw [same]; exact ⟨rfl, rfl⟩
  | registered _ _ _ _ _ _ _ _ _ _ _ _ after => rw [after]; exact ⟨rfl, rfl⟩
  | committed _ _ _ _ _ _ _ _ _ _ after => rw [after]; exact ⟨rfl, rfl⟩
  | voted _ _ _ _ _ _ _ _ _ _ _ _ _ _ _ _ _ after => rw [after]; exact ⟨rfl, rfl⟩
  | tallied _ _ _ _ after => rw [after]; exact ⟨rfl, rfl⟩
  | moved _ _ _ _ moved =>
      obtain ⟨state, missing⟩ := moved.state
      exact ⟨by rw [state]; rfl, missing⟩

end SmartContracts.Voting
