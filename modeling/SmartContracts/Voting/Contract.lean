import SmartContracts.Chain.Payments
import SmartContracts.Data.OrderedMap
import SmartContracts.Voting.Crypto

namespace SmartContracts.Voting

open SmartContracts.Chain SmartContracts.Crypto SmartContracts.Data SmartContracts.Semantics

/-! # The voting contract

Voters register with a deposit, commit to a vote and reveal it blinded; the sum
of the blinded votes is the tally.  The phase is moved on by the last voter to
act or by anyone who calls after the deadline of the phase.
-/

inductive VotingPhase where
  | registration
  | commit
  | vote
  | result
  | abort
deriving DecidableEq

inductive SetupError where
  | parseParams
  | invalidRegistrationTimeout
  | invalidPrecommitTimeout
  | invalidCommitTimeout
  | invalidVoteTimeout
  | negativeDeposit
  | invalidNumberOfVoters
deriving DecidableEq

inductive RegisterError where
  | parseParams
  | unauthorizedVoter
  | contractSender
  | accountSender
  | invalidContractSender
  | wrongDeposit
  | notRegistrationPhase
  | phaseEnded
  | voterNotFound
  | alreadyRegistered
  | invalidZKP
  | invalidVotingKey
deriving DecidableEq

inductive CommitError where
  | parseParams
  | unauthorizedVoter
  | contractSender
  | notCommitPhase
  | phaseEnded
  | voterNotFound
  | invalidCommitMessage
deriving DecidableEq

inductive VoteError where
  | parseParams
  | doTransfer
  | unauthorizedVoter
  | contractSender
  | notVotePhase
  | phaseEnded
  | voterNotFound
  | invalidZKP
  | voteCommitmentMismatch
  | alreadyVoted
deriving DecidableEq

inductive ResultError where
  | parseParams
  | notResultPhase
deriving DecidableEq

inductive ChangeError where
  | parseParams
  | contractSender
  | transferRefund
deriving DecidableEq

structure VoteConfig where
  merkleRoot : Hash
  merkleLeafCount : Int32
  votingQuestion : String
  deposit : Amount
  registrationTimeout : Timestamp
  commitTimeout : Timestamp
  voteTimeout : Timestamp

structure RegisterMessage where
  -- g^x
  votingKey : Bytes
  -- zkp for x
  votingKeyZkp : SchnorrProof
  merkleProof : MerkleProof

structure CommitMessage where
  -- g^y
  reconstructedKey : Bytes
  -- H(g^y*g^xv)
  commitment : Bytes

structure VoteMessage where
  -- g^y*g^xv, v = {0, 1}
  vote : Bytes
  -- one-in-two zkp for v
  voteZkp : OneInTwoZKP

structure Voter where
  votingKey : Bytes
  votingKeyZkp : SchnorrProof
  reconstructedKey : Bytes
  commitment : Bytes
  vote : Bytes
  voteZkp : OneInTwoZKP
deriving DecidableEq

instance : Inhabited Voter := ⟨⟨[], default, [], [], [], default⟩⟩

structure VotingState where
  config : VoteConfig
  votingPhase : VotingPhase
  votingResult : Int32 × Int32
  voters : OrderedMap AccountAddress Voter

/-! ## Entrypoints -/

/-- SETUP PHASE: create an instance of the contract with a voting config -/
def setup (slotTime : Timestamp) (parameter : Option VoteConfig) :
    Except SetupError VotingState :=
  match parameter with
  | none => .error .parseParams
  | some voteConfig =>
      if ¬ voteConfig.registrationTimeout > slotTime then .error .invalidRegistrationTimeout
      else if ¬ voteConfig.commitTimeout > voteConfig.registrationTimeout then
        .error .invalidPrecommitTimeout
      else if ¬ voteConfig.voteTimeout > voteConfig.commitTimeout then .error .invalidVoteTimeout
      else if ¬ voteConfig.deposit ≥ 0 then .error .negativeDeposit
      else .ok {
        config := voteConfig
        votingPhase := .registration
        votingResult := (-1, -1)
        voters := .empty }

section Entrypoints

variable (crypto : Primitives)

/-- REGISTRATION PHASE: voting key, ZKP, deposit -/
def register (ctx : ReceiveContext) (deposit : Amount) (parameter : Option RegisterMessage) :
    Receive RegisterError VotingState Unit := do
  let registerMessage ← Receive.getParameter parameter .parseParams
  let senderAddress ← Receive.senderAccount ctx .contractSender
  let state ← Receive.state
  Receive.ensure (state.votingPhase = .registration) .notRegistrationPhase
  let authorized ← Receive.unwrapAbort (verifyMerkleProof crypto state.config.merkleRoot
    state.config.merkleLeafCount registerMessage.merkleProof senderAddress)
  Receive.ensure (authorized = true) .unauthorizedVoter
  Receive.ensure (state.config.deposit = deposit) .wrongDeposit
  Receive.ensure (ctx.slotTime ≤ state.config.registrationTimeout) .phaseEnded
  Receive.ensure (state.voters.get? senderAddress = none) .alreadyRegistered
  let entered := { state with voters := state.voters.insert senderAddress default }
  Receive.setState entered
  Receive.ensure ((crypto.curve.decodePoint registerMessage.votingKey).isSome) .invalidVotingKey
  let votingKey ← Receive.unwrapAbort (crypto.convertVecToPoint registerMessage.votingKey)
  let proved ← Receive.unwrapAbort
    (verifySchnorrZkp crypto votingKey registerMessage.votingKeyZkp)
  Receive.ensure (proved = true) .invalidZKP
  let voter : Voter := {
    (default : Voter) with
    votingKey := registerMessage.votingKey
    votingKeyZkp := registerMessage.votingKeyZkp }
  let registered := { entered with voters := entered.voters.insert senderAddress voter }
  Receive.setState registered
  -- the count is compared as an i32
  if Int32.ofNat registered.voters.entries.length = registered.config.merkleLeafCount then
    Receive.setState { registered with votingPhase := .commit }

/-- COMMIT PHASE: reconstructed key and a hash of the vote -/
def commit (ctx : ReceiveContext) (parameter : Option CommitMessage) :
    Receive CommitError VotingState Unit := do
  let commitmentMessage ← Receive.getParameter parameter .parseParams
  let senderAddress ← Receive.senderAccount ctx .contractSender
  Receive.ensure (commitmentMessage.commitment ≠ []) .invalidCommitMessage
  Receive.ensure (commitmentMessage.reconstructedKey ≠ []) .invalidCommitMessage
  let state ← Receive.state
  Receive.ensure (state.votingPhase = .commit) .notCommitPhase
  Receive.ensure ((state.voters.get? senderAddress).isSome) .unauthorizedVoter
  Receive.ensure (ctx.slotTime ≤ state.config.commitTimeout) .phaseEnded
  match state.voters.get? senderAddress with
  | none => Receive.bail .voterNotFound
  | some v =>
      let committed := { state with
        voters := state.voters.insert senderAddress { v with
          reconstructedKey := commitmentMessage.reconstructedKey
          commitment := commitmentMessage.commitment } }
      Receive.setState committed
      if ∀ v ∈ committed.voters.values, v.commitment ≠ [] ∧ v.reconstructedKey ≠ [] then
        Receive.setState { committed with votingPhase := .vote }

/-- VOTE PHASE: encrypted vote along with a one-in-two ZKP -/
def vote (ctx : ReceiveContext) (parameter : Option VoteMessage) :
    Receive VoteError VotingState Unit := do
  let voteMessage ← Receive.getParameter parameter .parseParams
  let senderAddress ← Receive.senderAccount ctx .contractSender
  let state ← Receive.state
  Receive.ensure (state.votingPhase = .vote) .notVotePhase
  Receive.ensure ((state.voters.get? senderAddress).isSome) .unauthorizedVoter
  Receive.ensure (ctx.slotTime ≤ state.config.voteTimeout) .phaseEnded
  match state.voters.get? senderAddress with
  | none => Receive.bail .voterNotFound
  | some v =>
      Receive.ensure (v.vote = []) .alreadyVoted
      let reconstructedKey ← Receive.unwrapAbort (crypto.convertVecToPoint v.reconstructedKey)
      let proved ← Receive.unwrapAbort
        (verifyOneInTwoZkp crypto voteMessage.voteZkp reconstructedKey)
      Receive.ensure (proved = true) .invalidZKP
      let votePoint ← Receive.unwrapAbort (crypto.convertVecToPoint voteMessage.vote)
      Receive.ensure (checkCommitment crypto votePoint v.commitment = true)
        .voteCommitmentMismatch
      let voted := { state with
        voters := state.voters.insert senderAddress { v with
          vote := voteMessage.vote
          voteZkp := voteMessage.voteZkp } }
      Receive.setState voted
      if ∀ v ∈ voted.voters.values, v.vote ≠ [] then
        Receive.setState { voted with votingPhase := .result }
      Receive.transfer (fun _ => .doTransfer) senderAddress state.config.deposit

/-- RESULT PHASE: compute tally if vote is over; the loop runs on the energy of
the call -/
def result (energy : ℕ) : Receive ResultError VotingState (Int32 × Int32) := do
  let state ← Receive.state
  Receive.ensure (state.votingPhase = .result) .notResultPhase
  let votes ← Receive.unwrapAbort
    (state.voters.values.mapM fun v => crypto.convertVecToPoint v.vote)
  let yesVotes ← Receive.unwrapAbort (bruteForceTally crypto energy votes)
  let noVotes := Int32.ofNat votes.length - yesVotes
  Receive.setState { state with votingResult := (yesVotes, noVotes) }
  return (yesVotes, noVotes)

end Entrypoints

/-- What a voter must have stored by the end of a phase; `refund_deposits`
spells this match out once for the stalling and once for the honest accounts. -/
def VotingPhase.duty : VotingPhase → Option (Voter → Bytes)
  | .registration => some Voter.votingKey
  | .commit => some Voter.reconstructedKey
  | .vote => some Voter.vote
  | .result => none
  | .abort => none

namespace VotingState

def stallingAccounts (state : VotingState) (duty : Voter → Bytes) : List AccountAddress :=
  state.voters.keysWhere (fun voter => duty voter = [])

def honestAccounts (state : VotingState) (duty : Voter → Bytes) : List AccountAddress :=
  state.voters.keysWhere (fun voter => duty voter ≠ [])

end VotingState

/-- Function to refund deposits, in case of the vote aborting: refunds honest
voters and rewards the caller of change_phase -/
def refundDeposits (sender : AccountAddress) : Receive TransferError VotingState Unit := do
  let state ← Receive.state
  let numberOfVoters := state.voters.entries.length
  let duty ← Receive.unwrapAbort state.votingPhase.duty
  let stallingAccounts := state.stallingAccounts duty
  let honestAccounts := state.honestAccounts duty
  if sender ∉ stallingAccounts ∧ numberOfVoters - honestAccounts.length > 0 then
    Receive.transfer id sender state.config.deposit
  Receive.payAll id (Payments.equal honestAccounts state.config.deposit)

/-- CHANGE PHASE: function anyone can call to change voting phase if conditions
are met -/
def changePhase (ctx : ReceiveContext) : Receive ChangeError VotingState Unit := do
  let now := ctx.slotTime
  let senderAddress ← Receive.senderAccount ctx .contractSender
  let state ← Receive.state
  match state.votingPhase with
  | .registration =>
      if now > state.config.registrationTimeout ∧
          (state.voters.values.filter (fun v => v.votingKey ≠ [])).length > 2 then
        Receive.setState { state with votingPhase := .commit }
      else if now > state.config.registrationTimeout then do
        Receive.mapError (fun _ => .transferRefund) (refundDeposits senderAddress)
        Receive.setState { state with votingPhase := .abort }
  | .commit =>
      if ∀ v ∈ state.voters.values, v.reconstructedKey ≠ [] ∧ v.commitment ≠ [] then
        Receive.setState { state with votingPhase := .vote }
      else if now > state.config.commitTimeout then do
        Receive.mapError (fun _ => .transferRefund) (refundDeposits senderAddress)
        Receive.setState { state with votingPhase := .abort }
  | .vote =>
      if ∀ v ∈ state.voters.values, v.vote ≠ [] then
        Receive.setState { state with votingPhase := .result }
      else if now > state.config.voteTimeout then do
        Receive.mapError (fun _ => .transferRefund) (refundDeposits senderAddress)
        Receive.setState { state with votingPhase := .abort }
  | .result => pure ()
  | .abort => pure ()

end SmartContracts.Voting
