import SmartContracts.Voting.Phases

namespace SmartContracts.Voting

open SmartContracts.Chain SmartContracts.Crypto SmartContracts.Data SmartContracts.Semantics

/-! # What a voter cannot take back

`Grows` relates two states of one election: every voter stays, under the same
key, and with the commitment and the vote as far as these were final.  What the
calls checked of a vote stays true of the stored one, because commitments are
closed before the first vote is stored.
-/

variable {crypto : Primitives} {owner : AccountAddress} {host : Host VotingState}

/-- The phases in which no commitment is accepted any more. -/
def VotingPhase.PastCommit (phase : VotingPhase) : Prop :=
  phase ≠ .registration ∧ phase ≠ .commit

structure Kept (phase : VotingPhase) (v kept : Voter) : Prop where
  key : kept.votingKey = v.votingKey
  commitment : phase.PastCommit →
    kept.reconstructedKey = v.reconstructedKey ∧ kept.commitment = v.commitment
  vote : v.vote ≠ [] → kept.vote = v.vote ∧ kept.voteZkp = v.voteZkp

theorem Kept.refl (phase : VotingPhase) (v : Voter) : Kept phase v v :=
  ⟨rfl, fun _ => ⟨rfl, rfl⟩, fun _ => ⟨rfl, rfl⟩⟩

structure Grows (before after : VotingState) : Prop where
  phase : before.votingPhase.PastCommit → after.votingPhase.PastCommit
  voters : ∀ account v, before.voters.get? account = some v →
    ∃ kept, after.voters.get? account = some kept ∧ Kept before.votingPhase v kept

namespace Grows

variable {before middle after : VotingState}

theorem refl (state : VotingState) : Grows state state :=
  ⟨id, fun _ v found => ⟨v, found, .refl _ v⟩⟩

theorem trans (first : Grows before middle) (last : Grows middle after) : Grows before after := by
  refine ⟨fun past => last.phase (first.phase past), fun account v found => ?_⟩
  obtain ⟨v', found', kept⟩ := first.voters account v found
  obtain ⟨v'', found'', keptOn⟩ := last.voters account v' found'
  refine ⟨v'', found'', keptOn.key.trans kept.key, fun past => ?_, fun voted => ?_⟩
  · obtain ⟨sameKey, sameCommitment⟩ := kept.commitment past
    obtain ⟨sameKey', sameCommitment'⟩ := keptOn.commitment (first.phase past)
    exact ⟨sameKey'.trans sameKey, sameCommitment'.trans sameCommitment⟩
  · obtain ⟨sameVote, sameZkp⟩ := kept.vote voted
    obtain ⟨sameVote', sameZkp'⟩ := keptOn.vote (sameVote ▸ voted)
    exact ⟨sameVote'.trans sameVote, sameZkp'.trans sameZkp⟩

theorem of_same_voters (phase : before.votingPhase.PastCommit → after.votingPhase.PastCommit)
    (same : after.voters = before.voters) : Grows before after :=
  ⟨phase, fun _ v found => ⟨v, same ▸ found, .refl _ v⟩⟩

/-- Only the entry of one voter is written. -/
theorem of_insert {sender : AccountAddress} {written : Voter}
    (phase : before.votingPhase.PastCommit → after.votingPhase.PastCommit)
    (inserted : after.voters = before.voters.insert sender written)
    (kept : ∀ v, before.voters.get? sender = some v → Kept before.votingPhase v written) :
    Grows before after := by
  refine ⟨phase, fun account v found => ?_⟩
  rw [inserted, OrderedMap.get?_insert]
  by_cases same : account = sender
  · subst same
    exact ⟨written, if_pos rfl, kept v found⟩
  · exact ⟨v, by rw [if_neg same, found], .refl _ v⟩

end Grows

theorem VotingState.advance_pastCommit {state : VotingState} {now : Timestamp}
    (past : state.votingPhase.PastCommit) :
    ((state.advance now).getD state.votingPhase).PastCommit := by
  unfold advance
  cases phase : state.votingPhase with
  | registration => exact absurd phase past.1
  | commit => exact absurd phase past.2
  | vote =>
      simp only
      split
      · exact ⟨by decide, by decide⟩
      · split <;> exact ⟨by decide, by decide⟩
  | result =>
      rw [phase] at past
      exact past
  | abort =>
      rw [phase] at past
      exact past

theorem step_grows (host : Host VotingState) (tx : Transaction) :
    Grows host.state (step crypto owner host tx).state := by
  cases step_cases crypto owner host tx with
  | rejected same =>
      rw [same]
      exact .refl _
  | registered _ _ _ _ _ phase _ _ _ fresh _ _ after =>
      rw [after]
      refine .of_insert (fun past => absurd phase past.1) rfl fun v found => ?_
      cases fresh.symm.trans found
  | committed message _ voter _ _ _ _ phase _ found after =>
      rw [after]
      refine .of_insert (fun past => absurd phase past.2) rfl fun v located => ?_
      cases Option.some.inj (found.symm.trans located)
      exact ⟨rfl, fun past => absurd phase past.2, fun _ => ⟨rfl, rfl⟩⟩
  | voted message _ voter _ _ _ _ _ phase _ found unvoted _ _ _ _ _ after =>
      rw [after]
      refine .of_insert (fun _ => ?_) rfl fun v located => ?_
      · simp only [VotingState.voted, phase]
        split <;> exact ⟨by decide, by decide⟩
      · cases Option.some.inj (found.symm.trans located)
        exact ⟨rfl, fun _ => ⟨rfl, rfl⟩, fun voted => absurd unvoted voted⟩
  | tallied _ _ _ _ after =>
      rw [after]
      exact .of_same_voters id rfl
  | moved _ _ _ _ moved =>
      rw [moved.state.1]
      exact .of_same_voters VotingState.advance_pastCommit rfl

theorem run_grows (start : Host VotingState) (txs : List Transaction) :
    Grows start.state (run (step crypto owner) start txs).state :=
  @run_invariant _ _ (step crypto owner) (fun host => Grows start.state host.state) start
    (.refl _) (fun host tx grows => grows.trans (step_grows host tx)) txs

/-- A stored vote with what `vote` checked of it. -/
structure Checked (crypto : Primitives) (v : Voter) (votePoint gY : crypto.Point) : Prop where
  decoded : crypto.curve.decodePoint v.vote = some votePoint
  hashed : (crypto.sha256 (crypto.curve.encodePoint votePoint)).toList = v.commitment
  keyed : crypto.curve.decodePoint v.reconstructedKey = some gY
  proved : verifyOneInTwoZkp crypto v.voteZkp gY = some true

theorem step_checked (consistent : PhaseConsistent host.state)
    (stored : ∀ v ∈ host.state.voters.values, v.vote ≠ [] →
      ∃ votePoint gY, Checked crypto v votePoint gY) (tx : Transaction) :
    ∀ v ∈ (step crypto owner host tx).state.voters.values, v.vote ≠ [] →
      ∃ votePoint gY, Checked crypto v votePoint gY := by
  cases step_cases crypto owner host tx with
  | rejected same => rwa [same]
  | registered _ _ _ _ _ _ _ _ _ _ _ _ after =>
      rw [after]
      exact OrderedMap.forall_values_insert stored fun voted => absurd rfl voted
  | committed _ _ voter _ _ _ _ phase _ found after =>
      rw [after]
      have unvoted : voter.vote = [] :=
        ((consistent.committing phase).1 voter (OrderedMap.mem_values_of_get? found)).1
      exact OrderedMap.forall_values_insert stored fun voted => absurd unvoted voted
  | voted _ _ _ gY votePoint _ _ _ _ _ _ _ keyed proved decoded committed _ after =>
      rw [after]
      have hashed := of_decide_eq_true committed
      exact OrderedMap.forall_values_insert stored fun _ =>
        ⟨votePoint, gY, decoded, hashed, keyed, proved⟩
  | tallied _ _ _ _ after => rwa [after]
  | moved _ _ _ _ moved => rwa [moved.state.1]

theorem run_checked {start : Host VotingState} (begins : IsSetup start)
    (txs : List Transaction) :
    ∀ v ∈ (run (step crypto owner) start txs).state.voters.values, v.vote ≠ [] →
      ∃ votePoint gY, Checked crypto v votePoint gY := by
  exact @run_consistently crypto owner (fun host => ∀ v ∈ host.state.voters.values, v.vote ≠ [] →
      ∃ votePoint gY, Checked crypto v votePoint gY) start begins begins.forall_voters
    (fun _ tx consistent stored => step_checked consistent stored tx) txs

/-- Keys, commitments and votes are final, and every stored vote is the one its
voter committed to and proved. -/
theorem votes_final {start : Host VotingState} (begins : IsSetup start)
    (past later : List Transaction) :
    let before := run (step crypto owner) start past
    let after := run (step crypto owner) start (past ++ later)
    (∀ account v, before.state.voters.get? account = some v →
      ∃ kept, after.state.voters.get? account = some kept ∧
        kept.votingKey = v.votingKey ∧
        (before.state.votingPhase ≠ .registration → before.state.votingPhase ≠ .commit →
          kept.reconstructedKey = v.reconstructedKey ∧ kept.commitment = v.commitment) ∧
        (v.vote ≠ [] → kept.vote = v.vote ∧ kept.voteZkp = v.voteZkp)) ∧
    ∀ v ∈ before.state.voters.values, v.vote ≠ [] →
      ∃ votePoint gY, crypto.curve.decodePoint v.vote = some votePoint ∧
        (crypto.sha256 (crypto.curve.encodePoint votePoint)).toList = v.commitment ∧
        crypto.curve.decodePoint v.reconstructedKey = some gY ∧
        verifyOneInTwoZkp crypto v.voteZkp gY = some true := by
  intro before after
  refine ⟨fun account v found => ?_, fun v member voted => ?_⟩
  · have grows : Grows before.state after.state := by
      simp only [after, run_append]
      exact run_grows before later
    obtain ⟨kept, located, key, commitment, vote⟩ := grows.voters account v found
    exact ⟨kept, located, key, fun opened began => commitment ⟨opened, began⟩, vote⟩
  · obtain ⟨votePoint, gY, decoded, hashed, keyed, proved⟩ :=
      run_checked begins past v member voted
    exact ⟨votePoint, gY, decoded, hashed, keyed, proved⟩

theorem votes_final_first_voted :
    ∃ v ∈ (run (step smallPrimitives (Small.account 0)) Small.start
        Small.firstVoted).state.voters.values, v.vote ≠ [] ∧
      ∃ votePoint, smallPrimitives.curve.decodePoint v.vote = some votePoint ∧
        (smallPrimitives.sha256 (smallPrimitives.curve.encodePoint votePoint)).toList =
          v.commitment := by
  have voted : ∃ v ∈ (run (step smallPrimitives (Small.account 0)) Small.start
      Small.firstVoted).state.voters.values, v.vote ≠ [] := by
    decide +kernel
  obtain ⟨v, member, voted⟩ := voted
  obtain ⟨votePoint, _, decoded, hashed, _⟩ := (@votes_final smallPrimitives (Small.account 0)
    Small.start Small.start_isSetup Small.firstVoted []).2 v member voted
  exact ⟨v, member, voted, votePoint, decoded, hashed⟩

end SmartContracts.Voting
