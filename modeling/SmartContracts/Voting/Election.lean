import SmartContracts.Voting.Result
import SmartContracts.Voting.Rounds

namespace SmartContracts.Voting

open SmartContracts.Chain SmartContracts.Crypto SmartContracts.Data SmartContracts.OffChain
  SmartContracts.Semantics

/-! # An election from setup to the result

Everyone on the list registers, commits and votes as the off-chain program does.
The contract ends with the tally of the choices they made and owes nobody
anything.
-/

variable {crypto : Primitives} {owner : AccountAddress}

/-- Once all have voted the refunds are made, and the records are those that the
participants blinded. -/
theorem Stage.settled {participants sent : List (Participant crypto)} {config : VoteConfig}
    {before : Participant crypto → Option Voter} {host : Host VotingState}
    (organized : Organized config participants)
    (total : ∀ bytes, ∃ scalar, crypto.hashToScalar bytes = some scalar)
    (everyone : ∀ participant ∈ participants, participant ∈ sent)
    (stage : Stage participants config .vote .result before
      (Participant.voted · (createMerkleTree crypto (accountsOf participants))
        (keysOf participants)) sent host) :
    host.balance = 0 ∧
    host.transfers.Perm (Payments.equal (accountsOf participants) config.deposit) ∧
    ∃ record : Participant crypto → Voter,
      (participants.map record).Perm host.state.voters.values ∧
      ∀ participant ∈ participants, (record participant).Blinded crypto (keysOf participants)
        participant.x participant.choice := by
  let record := fun participant : Participant crypto =>
    (participant.voted (createMerkleTree crypto (accountsOf participants))
      (keysOf participants)).getD default
  have each : ∀ participant ∈ participants,
      participant.voted (createMerkleTree crypto (accountsOf participants)) (keysOf participants) =
        some (record participant) ∧
      (record participant).Blinded crypto (keysOf participants) participant.x
        participant.choice := by
    intro participant member
    obtain ⟨_, _, _, _, _, _, _, _, _, _, _, stored, blinded, _⟩ := organized.votes total member
    have kept : record participant = _ := congrArg (Option.getD · default) stored
    rw [kept]
    exact ⟨stored, blinded⟩
  have entries := stage.recorded.entries_perm organized.accounts everyone
    fun participant member => (each participant member).1
  have voted : ∀ v ∈ host.state.voters.values, v.vote ≠ [] := by
    refine stage.recorded.forall_values everyone fun participant member v stored empty => ?_
    obtain ⟨known, blinded⟩ := each participant member
    obtain rfl : record participant = v := Option.some.inj (known.symm.trans stored)
    obtain ⟨_, _, _, decoded⟩ := blinded.vote
    rw [empty] at decoded
    cases crypto.curve.decodePoint_nil.symm.trans decoded
  refine ⟨?_, ?_, record, ?_, fun participant member => (each participant member).2⟩
  · rw [stage.escrow.funded, VotingState.stallingAccounts_eq_nil.mpr voted, List.length_nil,
      Nat.zero_mul]
  · have honest : host.state.honestAccounts Voter.vote = host.state.voters.keys := by
      rw [VotingState.honestAccounts, OrderedMap.keysWhere, OrderedMap.keys,
        List.filter_eq_self.mpr]
      intro entry member
      exact decide_eq_true (voted entry.2 (List.mem_map_of_mem member))
    have keys : host.state.voters.keys.Perm (accountsOf participants) := by
      simpa [OrderedMap.keys, accountsOf, Function.comp_def] using entries.map Prod.fst
    refine stage.escrow.refunded.trans ?_
    rw [honest, stage.configured]
    exact keys.map _
  · have values := entries.map Prod.snd
    rw [List.map_map] at values
    exact values.symm

/-- Whatever the order of the messages and whatever others send in between, an
election in which everyone does their part ends with its result, with every
deposit sent back once, and with the tally of the choices that were made. -/
theorem election_completes {start : Host VotingState} (begins : IsSetup start)
    {participants : List (Participant crypto)}
    (organized : Organized start.state.config participants)
    (total : ∀ bytes, ∃ scalar, crypto.hashToScalar bytes = some scalar)
    (exist : ∀ participant ∈ participants, participant.account ∉ start.missingAccounts)
    {registrations commitments ballots : List Transaction}
    (registering : Round participants
      (fun participant => .register
        (participant.register (createMerkleTree crypto (accountsOf participants))))
      start.state.config.deposit start.state.config.registrationTimeout registrations)
    (committing : Round participants
      (fun participant => .commit (participant.commit (keysOf participants)))
      0 start.state.config.commitTimeout commitments)
    (voting : Round participants
      (fun participant => .vote (participant.vote (keysOf participants)))
      0 start.state.config.voteTimeout ballots) :
    let host := run (step crypto owner) start (registrations ++ commitments ++ ballots)
    let yesVotes := ((participants.map Participant.choice).map Bool.toNat).sum
    host.state.votingPhase = .result ∧ host.balance = 0 ∧
    host.transfers.Perm
      (Payments.equal (accountsOf participants) start.state.config.deposit) ∧
    (∀ energy ≥ yesVotes, ∃ tally after, (result crypto energy).run host = .ok tally after) ∧
    ∀ energy tally after, (result crypto energy).run host = .ok tally after →
      tally.1.toInt = yesVotes ∧ tally.2.toInt = participants.length - yesVotes := by
  intro host yesVotes
  have several := organized.several
  have bounded := organized.bounded
  have someone : participants ≠ [] := by
    intro empty
    rw [empty, List.length_nil] at several
    omega
  have initially : Stage participants start.state.config .registration .commit (fun _ => none)
      (Participant.registered · (createMerkleTree crypto (accountsOf participants))) [] start := by
    obtain ⟨config, state, _, _⟩ := begins.config
    refine ⟨@run_consistent crypto owner start begins [], Escrow.initially begins, rfl, exist,
      List.nil_subset _, List.nodup_nil, fun _ _ _ => by rw [state], fun impossible => ?_, ?_⟩
    · obtain ⟨participant, member⟩ := List.exists_mem_of_ne_nil _ someone
      exact absurd (impossible participant member) List.not_mem_nil
    · rw [state]
      exact ⟨fun _ _ member => absurd member List.not_mem_nil, fun _ _ _ => rfl, fun _ _ => rfl⟩
  obtain ⟨beforeCommit, beforeVote⟩ :
      start.state.config.registrationTimeout < start.state.config.commitTimeout ∧
      start.state.config.commitTimeout < start.state.config.voteTimeout := by
    obtain ⟨_, _, state, _, accepted, rfl⟩ := begins
    obtain ⟨config, _, _, first, second, rfl⟩ := setup_ok.mp accepted
    exact ⟨first, second⟩
  generalize start.state.config = config at *
  obtain ⟨registered, allRegistered, first⟩ := Stage.round organized initially
    (fun state configured phase now inTime => by
      refine VotingState.not_overdue (fun _ => configured ▸ inTime) (fun _ => ?_) fun voting => ?_
      · exact configured ▸ UInt64.le_trans inTime (UInt64.le_of_lt beforeCommit)
      · simp [voting] at phase)
    (fun _ _ _ _ member waits inTime stage =>
      @register_speaks crypto owner _ _ _ _ _ _ organized total member waits inTime stage)
    registering
  obtain ⟨committed, allCommitted, second⟩ := Stage.round organized
    (first.restart allRegistered someone)
    (fun state configured phase now inTime => by
      refine VotingState.not_overdue (fun registering => ?_) (fun _ => configured ▸ inTime)
        fun _ => ?_
      · simp [registering] at phase
      · exact configured ▸ UInt64.le_trans inTime (UInt64.le_of_lt beforeVote))
    (fun _ _ _ _ member waits inTime stage =>
      @commit_speaks crypto owner _ _ _ _ _ _ organized total member waits inTime stage)
    committing
  obtain ⟨voted, allVoted, third⟩ := Stage.round organized
    (second.restart allCommitted someone)
    (fun state configured phase now inTime => by
      refine VotingState.not_overdue (fun registering => ?_) (fun committing => ?_)
        fun _ => configured ▸ inTime
      · simp [registering] at phase
      · simp [committing] at phase)
    (fun _ _ _ _ member waits inTime stage =>
      @vote_speaks crypto owner _ _ _ _ _ _ organized total member waits inTime stage)
    voting
  have whole : host = run (step crypto owner)
      (run (step crypto owner) (run (step crypto owner) start registrations) commitments)
      ballots := by
    rw [← run_append, ← run_append, ← List.append_assoc]
  rw [← whole] at third
  obtain ⟨settled, refunded, record, recorded, blinded⟩ :=
    third.settled organized total allVoted
  have phase := third.finished allVoted
  obtain ⟨returns, tallies⟩ := @result_of_blinded crypto owner start begins
    (registrations ++ commitments ++ ballots) _ participants record Participant.x
    Participant.choice several bounded organized.keys blinded phase recorded
  exact ⟨phase, settled, refunded, fun energy enough => (returns energy).mpr enough, tallies⟩

/-! ## The small election

In every round an outsider asks for the next phase and for the result.
-/

namespace Small

def voters : List (Participant smallPrimitives) :=
  [⟨account 1, (2 : ℕ), false, (7 : ℕ), (11 : ℕ), (13 : ℕ), (17 : ℕ)⟩,
    ⟨account 2, (3 : ℕ), true, (9 : ℕ), (19 : ℕ), (23 : ℕ), (29 : ℕ)⟩]

def round (slotTime : Timestamp) (amount : Amount)
    (call : Participant smallPrimitives → Call) : List Transaction :=
  voters.map (fun voter => voter.sends slotTime amount (call voter)) ++
    [send 9 slotTime 0 .changePhase, send 9 slotTime 0 (.result 5)]

theorem round_isRound {slotTime deadline : Timestamp} (timely : slotTime ≤ deadline)
    (amount : Amount) (call : Participant smallPrimitives → Call) :
    Round voters call amount deadline (round slotTime amount call) := by
  have stranger : Address.account (account 9) ∉ sendersOf voters := by
    decide +kernel
  have listed : ∀ tx ∈ voters.map (fun voter => voter.sends slotTime amount (call voter)),
      tx.sender ∈ sendersOf voters := by
    intro tx member
    obtain ⟨voter, inside, rfl⟩ := List.mem_map.mp member
    exact List.mem_map_of_mem (List.mem_map_of_mem inside)
  refine ⟨fun _ => slotTime, fun _ _ => timely, List.Perm.of_eq ?_, fun tx member foreign => ?_⟩
  · rw [round, List.filter_append,
      List.filter_eq_self.mpr fun tx member => decide_eq_true (listed tx member)]
    simp [send, stranger]
  · rcases List.mem_append.mp member with own | other
    · exact absurd (listed tx own) foreign
    · simp only [List.mem_cons, List.not_mem_nil, or_false] at other
      rcases other with rfl | rfl
      · exact ⟨timely, stranger, by rintro _ _ ⟨⟩⟩
      · exact ⟨timely, stranger, by rintro _ _ ⟨⟩⟩

theorem voters_organized : Organized config voters where
  several := by decide
  bounded := by decide
  accounts := by decide +kernel
  keys := by decide +kernel
  leafCount := rfl
  root := by decide +kernel
  decodable := by
    intro participant member
    have registers : ∀ participant ∈ voters,
        (participant.register (createMerkleTree smallPrimitives (accountsOf voters))).all
          (fun message => (smallPrimitives.curve.decodePoint message.votingKey).isSome &&
            (message.votingKeyZkp.extractPrimitives smallPrimitives).isSome) = true := by
      decide +kernel
    have commits : ∀ participant ∈ voters, (participant.commit (keysOf voters)).all
        (fun message => (smallPrimitives.curve.decodePoint message.reconstructedKey).isSome) =
          true := by
      decide +kernel
    have votes : ∀ participant ∈ voters, (participant.vote (keysOf voters)).all
        (fun message => (smallPrimitives.curve.decodePoint message.vote).isSome &&
          ((message.voteZkp.extractScalars smallPrimitives).isSome &&
            (message.voteZkp.extractPoints smallPrimitives).isSome)) = true := by
      decide +kernel
    refine ⟨fun message sent => ?_, fun message sent => ?_, fun message sent => ?_⟩
    · simpa [sent] using registers participant member
    · simpa [sent] using commits participant member
    · simpa [sent] using votes participant member

end Small

theorem election_completes_small :
    let host := run (step smallPrimitives (Small.account 0)) Small.start
      (Small.round 1 5 (fun voter => .register (voter.register
          (createMerkleTree smallPrimitives (accountsOf Small.voters)))) ++
        Small.round 11 0 (fun voter => .commit (voter.commit (keysOf Small.voters))) ++
        Small.round 21 0 (fun voter => .vote (voter.vote (keysOf Small.voters))))
    host.state.votingPhase = .result ∧ host.balance = 0 ∧
    host.transfers.Perm [(Small.account 1, 5), (Small.account 2, 5)] ∧
    (∀ energy ≥ 1, ∃ tally after, (result smallPrimitives energy).run host = .ok tally after) ∧
    ∀ energy tally after, (result smallPrimitives energy).run host = .ok tally after →
      tally.1.toInt = 1 ∧ tally.2.toInt = 1 :=
  election_completes Small.start_isSetup Small.voters_organized hashToScalar_small
    (fun _ _ => List.not_mem_nil) (Small.round_isRound (by decide) _ _)
    (Small.round_isRound (by decide) _ _) (Small.round_isRound (by decide) _ _)

end SmartContracts.Voting
