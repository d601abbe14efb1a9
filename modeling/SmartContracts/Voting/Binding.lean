import SmartContracts.Voting.Messages

namespace SmartContracts.Voting

open SmartContracts.Chain SmartContracts.Crypto SmartContracts.Data SmartContracts.Semantics

/-! # What ties a vote to its proof

`vote` checks the proof against the reconstructed key and the vote against the
commitment, but compares neither the vote with the point the proof is about nor
the proof's key with the voting key.  Stored votes are tied to their proofs as
far as the accepted messages are.
-/

/-- A vote transaction that passes every check of the contract. -/
structure Casts (crypto : Primitives) (host : Host VotingState) (tx : Transaction)
    (message : VoteMessage) (sender : AccountAddress) (voter : Voter)
    (gY votePoint : crypto.Point) : Prop where
  call : tx.call = .vote (some message)
  account : tx.sender = .account sender
  unpaid : tx.amount = 0
  phase : host.state.votingPhase = .vote
  inTime : tx.slotTime ≤ host.state.config.voteTimeout
  found : host.state.voters.get? sender = some voter
  unvoted : voter.vote = []
  keyed : crypto.curve.decodePoint voter.reconstructedKey = some gY
  proved : verifyOneInTwoZkp crypto message.voteZkp gY = some true
  decoded : crypto.curve.decodePoint message.vote = some votePoint
  committed : checkCommitment crypto votePoint voter.commitment = true
  payable : host.CanPay [(sender, host.state.config.deposit)]

variable {crypto : Primitives} {owner : AccountAddress} {host : Host VotingState}

/-- What holds of every vote as it is cast holds of every stored vote, if it
does not depend on the commitments. -/
theorem step_ballots {holds : Voter → Prop}
    (stored : ∀ v ∈ host.state.voters.values, v.vote ≠ [] → holds v) {tx : Transaction}
    (recommitted : ∀ (v : Voter) (message : CommitMessage), holds v →
      holds { v with
        reconstructedKey := message.reconstructedKey, commitment := message.commitment })
    (cast : ∀ message sender voter gY votePoint,
      Casts crypto host tx message sender voter gY votePoint →
      holds { voter with vote := message.vote, voteZkp := message.voteZkp }) :
    ∀ v ∈ (step crypto owner host tx).state.voters.values, v.vote ≠ [] → holds v := by
  cases step_cases crypto owner host tx with
  | rejected same => rwa [same]
  | registered _ _ _ _ _ _ _ _ _ _ _ _ after =>
      rw [after]
      exact OrderedMap.forall_values_insert stored fun voted => absurd rfl voted
  | committed message _ voter _ _ _ _ _ _ found after =>
      rw [after]
      exact OrderedMap.forall_values_insert stored fun voted =>
        recommitted voter message (stored voter (OrderedMap.mem_values_of_get? found) voted)
  | voted message sender voter gY votePoint call account unpaid phase inTime found unvoted keyed
      proved decoded committed payable after =>
      rw [after]
      exact OrderedMap.forall_values_insert stored fun _ =>
        cast message sender voter gY votePoint ⟨call, account, unpaid, phase, inTime, found,
          unvoted, keyed, proved, decoded, committed, payable⟩
  | tallied _ _ _ _ after => rwa [after]
  | moved _ _ _ _ moved => rwa [moved.state.1]

/-- The vote is the point the proof is about, and the proof is the voter's own. -/
def Bound (crypto : Primitives) (v : Voter) : Prop :=
  ∃ votePoint key,
    crypto.curve.decodePoint v.vote = some votePoint ∧
    crypto.curve.decodePoint v.voteZkp.y = some votePoint ∧
    crypto.curve.decodePoint v.voteZkp.x = some key ∧
    crypto.curve.decodePoint v.votingKey = some key

/-- A vote that passes the checks of the contract comes with a proof about it
and about the sender's voting key. -/
def MatchesProof (crypto : Primitives) (host : Host VotingState) (tx : Transaction) : Prop :=
  ∀ message sender voter gY votePoint, Casts crypto host tx message sender voter gY votePoint →
    crypto.curve.decodePoint message.vote = crypto.curve.decodePoint message.voteZkp.y ∧
    crypto.curve.decodePoint message.voteZkp.x = crypto.curve.decodePoint voter.votingKey

theorem Casts.bound {tx : Transaction} {message : VoteMessage} {sender : AccountAddress}
    {voter : Voter} {gY votePoint : crypto.Point}
    (casts : Casts crypto host tx message sender voter gY votePoint)
    (sameVote : crypto.curve.decodePoint message.vote =
      crypto.curve.decodePoint message.voteZkp.y)
    (sameKey : crypto.curve.decodePoint message.voteZkp.x =
      crypto.curve.decodePoint voter.votingKey) :
    Bound crypto { voter with vote := message.vote, voteZkp := message.voteZkp } := by
  obtain ⟨_, _, _, _, x, y, a1, b1, a2, b2, _, points, _⟩ :=
    verifyOneInTwoZkp_accepts.mp casts.proved
  have statement := ((OneInTwoZKP.extractPoints_eq_some crypto).mp points).1
  exact ⟨votePoint, x, casts.decoded, sameVote ▸ casts.decoded, statement, sameKey ▸ statement⟩

/-- Along a run whose votes match their proofs every stored vote is bound. -/
theorem votes_bound {start : Host VotingState} (begins : IsSetup start) {txs : List Transaction}
    (matching : Along (step crypto owner) (MatchesProof crypto) start txs) :
    ∀ v ∈ (run (step crypto owner) start txs).state.voters.values, v.vote ≠ [] →
      Bound crypto v := by
  refine @run_preserves _ _ (step crypto owner) (MatchesProof crypto)
    (fun host => ∀ v ∈ host.state.voters.values, v.vote ≠ [] → Bound crypto v) start txs ?_ ?_
    matching
  · exact begins.forall_voters
  · intro before tx bound matching
    refine step_ballots bound (fun _ _ => id) fun message sender voter gY votePoint casts => ?_
    obtain ⟨sameVote, sameKey⟩ := matching message sender voter gY votePoint casts
    exact casts.bound sameVote sameKey

theorem votes_bound_first_voted :
    ∃ v ∈ (run (step smallPrimitives (Small.account 0)) Small.start
        Small.firstVoted).state.voters.values, v.vote ≠ [] ∧ Bound smallPrimitives v := by
  have honest :
      let prepared := run (step smallPrimitives (Small.account 0)) Small.start
        (Small.firstVoted.take 4)
      ∃ message ∈ voteMessage smallPrimitives Small.keys 2 false 11 13 17,
        smallPrimitives.curve.decodePoint message.vote =
          smallPrimitives.curve.decodePoint message.voteZkp.y ∧
        ∃ voter ∈ prepared.state.voters.get? (Small.account 1),
          smallPrimitives.curve.decodePoint message.voteZkp.x =
            smallPrimitives.curve.decodePoint voter.votingKey := by
    decide +kernel
  have voted : ∃ v ∈ (run (step smallPrimitives (Small.account 0)) Small.start
      Small.firstVoted).state.voters.values, v.vote ≠ [] := by
    decide +kernel
  obtain ⟨v, member, voted⟩ := voted
  refine ⟨v, member, voted, votes_bound Small.start_isSetup ?_ v member voted⟩
  have split : Small.firstVoted =
      Small.firstVoted.take 4 ++ [Small.votes 1 2 false 11 13 17] := rfl
  rw [split, along_append]
  have neverVotes : ∀ tx ∈ Small.firstVoted.take 4, ∀ message, tx.call ≠ .vote message := by
    simp [Small.firstVoted, Small.registers, Small.commits, Small.send]
  refine ⟨along_of_mem (fun tx member _ _ _ _ _ _ casts =>
    absurd casts.call (neverVotes tx member _)) _, ?_, trivial⟩
  revert honest
  generalize run (step smallPrimitives (Small.account 0)) Small.start (Small.firstVoted.take 4) =
    prepared
  intro honest
  obtain ⟨message, made, sameVote, voter, found, sameKey⟩ := honest
  -- the call and the registered voter leave one message and one voting key to compare
  intro message' sender voter' _ _ casts
  cases Option.some.inj (Call.vote.inj (casts.call.symm.trans (congrArg Call.vote made)))
  cases Address.account.inj casts.account
  cases Option.some.inj (casts.found.symm.trans found)
  exact ⟨sameVote, sameKey⟩

namespace Small

def stray : Bytes := smallPrimitives.curve.encodePoint ((42 : ℕ) : smallPrimitives.Scalar)

/-- The first voter commits to a stray point and votes it, next to an honest proof. -/
def firstStrays : List Transaction :=
  firstVoted.take 2 ++
    [send 1 11 0 (.commit ((commitMessage smallPrimitives keys (2 : ℕ) false).map fun message =>
      { message with commitment := (smallPrimitives.sha256 stray).toList })),
    commits 2 3 true,
    send 1 21 0 (.vote ((voteMessage smallPrimitives keys (2 : ℕ) false (11 : ℕ) (13 : ℕ)
        (17 : ℕ)).map fun message =>
      { message with vote := stray }))]

end Small

theorem not_bound_first_strays :
    IsSetup Small.start ∧
    ∃ v ∈ (run (step smallPrimitives (Small.account 0)) Small.start
        Small.firstStrays).state.voters.values, v.vote ≠ [] ∧ ¬ Bound smallPrimitives v := by
  have strays : ∃ v ∈ (run (step smallPrimitives (Small.account 0)) Small.start
      Small.firstStrays).state.voters.values, v.vote ≠ [] ∧
        smallPrimitives.curve.decodePoint v.vote ≠
          smallPrimitives.curve.decodePoint v.voteZkp.y := by
    decide +kernel
  obtain ⟨v, member, voted, differ⟩ := strays
  refine ⟨Small.start_isSetup, v, member, voted, fun bound => differ ?_⟩
  obtain ⟨_, _, vote, statement, _⟩ := bound
  exact vote.trans statement.symm

end SmartContracts.Voting
