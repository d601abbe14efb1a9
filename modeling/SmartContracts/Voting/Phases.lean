import SmartContracts.Voting.Messages

namespace SmartContracts.Voting

open SmartContracts.Chain SmartContracts.Crypto SmartContracts.Data SmartContracts.Semantics

/-! # The phases of a vote

`PhaseConsistent` says what the voters have stored in each phase.  It is why
the two arms of `change_phase` that look for a finished phase never find one:
whoever acts last has already moved the contract on.
-/

inductive VotingPhase.Edge : VotingPhase → VotingPhase → Prop where
  | registered : Edge .registration .commit
  | unregistered : Edge .registration .abort
  | committed : Edge .commit .vote
  | uncommitted : Edge .commit .abort
  | voted : Edge .vote .result
  | unvoted : Edge .vote .abort

structure PhaseConsistent (state : VotingState) : Prop where
  keyed : ∀ v ∈ state.voters.values, v.votingKey ≠ []
  registering : state.votingPhase = .registration → ∀ v ∈ state.voters.values,
    v.reconstructedKey = [] ∧ v.commitment = [] ∧ v.vote = []
  committing : state.votingPhase = .commit →
    (∀ v ∈ state.voters.values, v.vote = [] ∧ (v.reconstructedKey = [] ↔ v.commitment = [])) ∧
    ∃ v ∈ state.voters.values, v.commitment = []
  voting : state.votingPhase = .vote →
    (∀ v ∈ state.voters.values, v.reconstructedKey ≠ [] ∧ v.commitment ≠ []) ∧
    ∃ v ∈ state.voters.values, v.vote = []
  tallying : state.votingPhase = .result →
    state.voters.values ≠ [] ∧
    ∀ v ∈ state.voters.values, v.reconstructedKey ≠ [] ∧ v.commitment ≠ [] ∧ v.vote ≠ []
  undecided : state.votingPhase ≠ .result → state.votingResult = (-1, -1)

namespace PhaseConsistent

variable {state : VotingState} {crypto : Primitives} {sender : AccountAddress} {voter : Voter}

theorem initially {slotTime : Timestamp} {parameter : Option VoteConfig}
    (accepted : setup slotTime parameter = .ok state) : PhaseConsistent state := by
  obtain ⟨config, _, _, _, _, rfl⟩ := setup_ok.mp accepted
  have nobody : ∀ {holds : Voter → Prop},
      ∀ v ∈ (OrderedMap.empty : OrderedMap AccountAddress Voter).values, holds v :=
    fun v member => absurd member List.not_mem_nil
  exact ⟨nobody, fun _ => nobody, by simp, by simp, by simp, fun _ => rfl⟩

theorem registered (consistent : PhaseConsistent state) {message : RegisterMessage}
    {key : crypto.Point} (phase : state.votingPhase = .registration)
    (decoded : crypto.curve.decodePoint message.votingKey = some key) :
    PhaseConsistent (state.registered sender message) := by
  have valid : message.votingKey ≠ [] := by
    intro empty
    rw [empty, crypto.curve.decodePoint_nil] at decoded
    exact Option.some_ne_none key decoded.symm
  have blank : ∀ v ∈ (state.registered sender message).voters.values,
      v.reconstructedKey = [] ∧ v.commitment = [] ∧ v.vote = [] :=
    OrderedMap.forall_values_insert (consistent.registering phase) ⟨rfl, rfl, rfl⟩
  have next : (state.registered sender message).votingPhase = .commit ∨
      (state.registered sender message).votingPhase = .registration := by
    simp only [VotingState.registered, phase]
    split
    · exact .inl rfl
    · exact .inr rfl
  refine ⟨OrderedMap.forall_values_insert consistent.keyed valid, fun _ => blank, ?_, ?_, ?_, ?_⟩
  · intro _
    refine ⟨fun v member => ?_, _, OrderedMap.mem_values_insert, rfl⟩
    obtain ⟨noKey, noCommitment, noVote⟩ := blank v member
    exact ⟨noVote, by rw [noKey, noCommitment]⟩
  · intro votes
    rcases next with isCommit | isRegistration <;> simp_all
  · intro tallies
    rcases next with isCommit | isRegistration <;> simp_all
  · intro _
    exact consistent.undecided (by simp [phase])

theorem committed (consistent : PhaseConsistent state) {message : CommitMessage}
    (phase : state.votingPhase = .commit) (found : state.voters.get? sender = some voter)
    (hashed : message.commitment ≠ []) (keyed : message.reconstructedKey ≠ []) :
    PhaseConsistent (state.committed sender voter message) := by
  have member := OrderedMap.mem_values_of_get? found
  obtain ⟨paired, _⟩ := consistent.committing phase
  have unvoted : ∀ v ∈ (state.committed sender voter message).voters.values,
      v.vote = [] ∧ (v.reconstructedKey = [] ↔ v.commitment = []) :=
    OrderedMap.forall_values_insert paired ⟨(paired voter member).1, by simp [hashed, keyed]⟩
  have validKeys : ∀ v ∈ (state.committed sender voter message).voters.values,
      v.votingKey ≠ [] :=
    OrderedMap.forall_values_insert consistent.keyed (consistent.keyed voter member)
  by_cases all : ∀ v ∈ (state.committed sender voter message).voters.values,
      v.commitment ≠ [] ∧ v.reconstructedKey ≠ []
  · have next : (state.committed sender voter message).votingPhase = .vote := if_pos all
    refine ⟨validKeys, by simp [next], by simp [next], fun _ => ⟨?_, ?_⟩, by simp [next], ?_⟩
    · exact fun v inside => (all v inside).symm
    · exact ⟨_, OrderedMap.mem_values_insert, (paired voter member).1⟩
    · exact fun _ => consistent.undecided (by simp [phase])
  · have next : (state.committed sender voter message).votingPhase = .commit :=
      (if_neg all).trans phase
    refine ⟨validKeys, by simp [next], fun _ => ⟨unvoted, ?_⟩, by simp [next], by simp [next], ?_⟩
    · simp only [not_forall, not_and_or, not_not] at all
      obtain ⟨v, inside, noCommitment | noKey⟩ := all
      · exact ⟨v, inside, noCommitment⟩
      · exact ⟨v, inside, (unvoted v inside).2.mp noKey⟩
    · exact fun _ => consistent.undecided (by simp [phase])

theorem voted (consistent : PhaseConsistent state) {message : VoteMessage}
    (phase : state.votingPhase = .vote) (found : state.voters.get? sender = some voter) :
    PhaseConsistent (state.voted sender voter message) := by
  have member := OrderedMap.mem_values_of_get? found
  obtain ⟨committed, _⟩ := consistent.voting phase
  have stillCommitted : ∀ v ∈ (state.voted sender voter message).voters.values,
      v.reconstructedKey ≠ [] ∧ v.commitment ≠ [] :=
    OrderedMap.forall_values_insert committed (committed voter member)
  have validKeys : ∀ v ∈ (state.voted sender voter message).voters.values, v.votingKey ≠ [] :=
    OrderedMap.forall_values_insert consistent.keyed (consistent.keyed voter member)
  by_cases all : ∀ v ∈ (state.voted sender voter message).voters.values, v.vote ≠ []
  · have next : (state.voted sender voter message).votingPhase = .result := if_pos all
    refine ⟨validKeys, by simp [next], by simp [next], by simp [next], fun _ => ⟨?_, ?_⟩,
      by simp [next]⟩
    · exact List.ne_nil_of_mem OrderedMap.mem_values_insert
    · intro v inside
      obtain ⟨hasKey, hasCommitment⟩ := stillCommitted v inside
      exact ⟨hasKey, hasCommitment, all v inside⟩
  · have next : (state.voted sender voter message).votingPhase = .vote :=
      (if_neg all).trans phase
    refine ⟨validKeys, by simp [next], by simp [next], fun _ => ⟨stillCommitted, ?_⟩,
      by simp [next], fun _ => consistent.undecided (by simp [phase])⟩
    simpa using all

/-- Only the deadline arms of `change_phase` and the one for enough registered
voters are ever taken. -/
theorem advance_cases (consistent : PhaseConsistent state) (now : Timestamp) :
    state.advance now = none ∨
      (state.votingPhase = .registration ∧ state.advance now = some .commit ∧
        state.voters.values ≠ []) ∨
      state.votingPhase.duty ≠ none ∧ state.advance now = some .abort := by
  unfold VotingState.advance
  cases phase : state.votingPhase with
  | registration =>
      simp only
      split
      · rename_i enough
        refine .inr (.inl ⟨trivial, rfl, ?_⟩)
        intro empty
        simp [empty] at enough
      · split
        · exact .inr (.inr ⟨by simp [VotingPhase.duty], rfl⟩)
        · exact .inl rfl
  | commit =>
      obtain ⟨v, inside, missing⟩ := (consistent.committing phase).2
      simp only
      rw [if_neg fun all => (all v inside).2 missing]
      split
      · exact .inr (.inr ⟨by simp [VotingPhase.duty], rfl⟩)
      · exact .inl rfl
  | vote =>
      obtain ⟨v, inside, missing⟩ := (consistent.voting phase).2
      simp only
      rw [if_neg fun all => all v inside missing]
      split
      · exact .inr (.inr ⟨by simp [VotingPhase.duty], rfl⟩)
      · exact .inl rfl
  | result => exact .inl rfl
  | abort => exact .inl rfl

theorem opened (consistent : PhaseConsistent state) (phase : state.votingPhase = .registration)
    (someone : state.voters.values ≠ []) : PhaseConsistent (state.withPhase .commit) := by
  have blank := consistent.registering phase
  refine ⟨consistent.keyed, by simp [VotingState.withPhase], fun _ => ⟨?_, ?_⟩,
    by simp [VotingState.withPhase], by simp [VotingState.withPhase],
    fun _ => consistent.undecided (by simp [phase])⟩
  · intro v inside
    obtain ⟨noKey, noCommitment, noVote⟩ := blank v inside
    exact ⟨noVote, by rw [noKey, noCommitment]⟩
  · obtain ⟨v, inside⟩ := List.exists_mem_of_ne_nil _ someone
    exact ⟨v, inside, (blank v inside).2.1⟩

theorem aborted (consistent : PhaseConsistent state) (running : state.votingPhase.duty ≠ none) :
    PhaseConsistent (state.withPhase .abort) := by
  refine ⟨consistent.keyed, by simp [VotingState.withPhase], by simp [VotingState.withPhase],
    by simp [VotingState.withPhase], by simp [VotingState.withPhase],
    fun _ => consistent.undecided ?_⟩
  intro ended
  exact running (by rw [ended]; rfl)

end PhaseConsistent

variable {crypto : Primitives} {owner : AccountAddress} {host : Host VotingState}

theorem step_consistent (consistent : PhaseConsistent host.state) (tx : Transaction) :
    PhaseConsistent (step crypto owner host tx).state := by
  cases step_cases crypto owner host tx with
  | rejected same => rwa [same]
  | registered _ _ _ _ _ phase _ _ _ _ decoded _ after =>
      rw [after]
      exact consistent.registered phase decoded
  | committed _ _ _ _ _ hashed keyed phase _ found after =>
      rw [after]
      exact consistent.committed phase found hashed keyed
  | voted _ _ _ _ _ _ _ _ phase _ found _ _ _ _ _ _ after =>
      rw [after]
      exact consistent.voted phase found
  | tallied _ _ _ phase after =>
      rw [after]
      exact ⟨consistent.keyed, consistent.registering, consistent.committing, consistent.voting,
        consistent.tallying, fun ended => absurd phase ended⟩
  | moved _ _ _ _ moved =>
      rw [moved.state.1]
      rcases consistent.advance_cases tx.slotTime with stays | ⟨phase, next, someone⟩ |
        ⟨running, next⟩
      · rw [stays]
        exact consistent
      · rw [next]
        exact consistent.opened phase someone
      · rw [next]
        exact consistent.aborted running

theorem run_consistent {start : Host VotingState} (begins : IsSetup start)
    (txs : List Transaction) : PhaseConsistent (run (step crypto owner) start txs).state := by
  obtain ⟨_, _, _, _, accepted, rfl⟩ := begins
  exact @run_invariant _ _ (step crypto owner) (fun host => PhaseConsistent host.state) _
    (PhaseConsistent.initially accepted) (fun _ tx before => step_consistent before tx) txs

/-- An invariant may rely on the phases being consistent. -/
theorem run_consistently {holds : Host VotingState → Prop} {start : Host VotingState}
    (begins : IsSetup start) (initially : holds start)
    (kept : ∀ host tx, PhaseConsistent host.state → holds host → holds (step crypto owner host tx))
    (txs : List Transaction) : holds (run (step crypto owner) start txs) := by
  have consistent : PhaseConsistent start.state := @run_consistent crypto owner start begins []
  refine (@run_invariant _ _ (step crypto owner)
    (fun host => PhaseConsistent host.state ∧ holds host) _ ⟨consistent, initially⟩ ?_ txs).2
  intro host tx before
  exact ⟨step_consistent before.1 tx, kept host tx before.1 before.2⟩

/-! ## How the phase moves -/

theorem step_edge (consistent : PhaseConsistent host.state) (tx : Transaction) :
    (step crypto owner host tx).state.votingPhase = host.state.votingPhase ∨
      VotingPhase.Edge host.state.votingPhase
        (step crypto owner host tx).state.votingPhase := by
  cases step_cases crypto owner host tx with
  | rejected same => exact .inl (by rw [same])
  | registered _ _ _ _ _ phase _ _ _ _ _ _ after =>
      rw [after]
      simp only [VotingState.registered, phase]
      split
      · exact .inr .registered
      · exact .inl rfl
  | committed _ _ _ _ _ _ _ phase _ _ after =>
      rw [after]
      simp only [VotingState.committed, phase]
      split
      · exact .inr .committed
      · exact .inl rfl
  | voted _ _ _ _ _ _ _ _ phase _ _ _ _ _ _ _ _ after =>
      rw [after]
      simp only [VotingState.voted, phase]
      split
      · exact .inr .voted
      · exact .inl rfl
  | tallied _ _ _ _ after => exact .inl (by rw [after])
  | moved _ _ _ _ moved =>
      rw [moved.state.1]
      rcases consistent.advance_cases tx.slotTime with stays | ⟨phase, next, _⟩ | ⟨running, next⟩
      · exact .inl (by rw [stays]; rfl)
      · rw [next, phase]
        exact .inr .registered
      · rw [next]
        right
        cases phase : host.state.votingPhase with
        | registration => exact .unregistered
        | commit => exact .uncommitted
        | vote => exact .unvoted
        | result => exact absurd (phase ▸ rfl) running
        | abort => exact absurd (phase ▸ rfl) running

theorem step_keys (closed : host.state.votingPhase ≠ .registration) (tx : Transaction) :
    (step crypto owner host tx).state.voters.keys = host.state.voters.keys := by
  cases step_cases crypto owner host tx with
  | rejected same => rw [same]
  | registered _ _ _ _ _ phase _ _ _ _ _ _ _ => exact absurd phase closed
  | committed _ _ _ _ _ _ _ _ _ found after =>
      rw [after]
      exact OrderedMap.keys_insert_present found _
  | voted _ _ _ _ _ _ _ _ _ _ found _ _ _ _ _ _ after =>
      rw [after]
      exact OrderedMap.keys_insert_present found _
  | tallied _ _ _ _ after => rw [after]
  | moved _ _ _ _ moved => rw [moved.state.1]; rfl

/-- The voter whose field is the only one still missing. -/
def LastMissing (state : VotingState) (field : Voter → Bytes) (sender : AccountAddress) : Prop :=
  state.voters.get? sender ≠ none ∧
    ∀ other v, state.voters.get? other = some v → (field v = [] ↔ other = sender)

/-- A call that finishes the phase exactly for the last voter missing comes from
that voter. -/
theorem completes_iff {μ : Type} {made : Option μ → Call} {message : μ} {tx : Transaction}
    {sender : AccountAddress} {field : Voter → Bytes} {next : VotingPhase}
    {after : Host VotingState} (call : tx.call = made (some message))
    (account : tx.sender = .account sender) (running : host.state.votingPhase ≠ next)
    (complete : after.state.votingPhase = next ↔ LastMissing host.state field sender) :
    after.state.votingPhase = next ↔
      ∃ message sender, tx.call = made (some message) ∧ tx.sender = .account sender ∧
        LastMissing host.state field sender ∧ after ≠ host := by
  refine ⟨fun moved => ?_, fun lastActs => ?_⟩
  · refine ⟨message, sender, call, account, complete.mp moved, fun same => ?_⟩
    rw [same] at moved
    exact running moved
  · obtain ⟨_, other, _, otherAccount, last, _⟩ := lastActs
    rw [account, Address.account.injEq] at otherAccount
    exact complete.mpr (otherAccount ▸ last)

theorem step_completes_commit (consistent : PhaseConsistent host.state)
    (phase : host.state.votingPhase = .commit) (tx : Transaction) :
    (step crypto owner host tx).state.votingPhase = .vote ↔
      ∃ message sender, tx.call = .commit (some message) ∧ tx.sender = .account sender ∧
        LastMissing host.state Voter.commitment sender ∧ step crypto owner host tx ≠ host := by
  obtain ⟨paired, missing⟩ := consistent.committing phase
  cases step_cases crypto owner host tx with
  | rejected same => simp [same, phase]
  | registered _ _ _ _ _ other _ _ _ _ _ _ _ => exact absurd (phase.symm.trans other) (by decide)
  | committed message sender voter call account hashed keyed _ _ found after =>
      have incomplete : ∀ v ∈ host.state.voters.values,
          ¬ (v.commitment ≠ [] ∧ v.reconstructedKey ≠ []) ↔ v.commitment = [] := by
        intro v inside
        have pair := (paired v inside).2
        tauto
      have failing : ∃ v ∈ host.state.voters.values,
          ¬ (v.commitment ≠ [] ∧ v.reconstructedKey ≠ []) := by
        obtain ⟨v, inside, uncommitted⟩ := missing
        exact ⟨v, inside, (incomplete v inside).mpr uncommitted⟩
      have complete : (step crypto owner host tx).state.votingPhase = .vote ↔
          LastMissing host.state Voter.commitment sender := by
        rw [after]
        simp only [VotingState.committed, ite_eq_left_iff, phase, reduceCtorEq, imp_false,
          not_not, OrderedMap.forall_values_insert_last found failing]
        have same : ∀ other v, host.state.voters.get? other = some v →
            (¬ (v.commitment ≠ [] ∧ v.reconstructedKey ≠ []) ↔ v.commitment = []) :=
          fun _ v located => incomplete v (OrderedMap.mem_values_of_get? located)
        refine ⟨fun completed => ?_, fun last => ?_⟩
        · exact ⟨by simp [found], fun other v located =>
            (same other v located).symm.trans (completed.2 other v located)⟩
        · exact ⟨⟨hashed, keyed⟩, fun other v located =>
            (same other v located).trans (last.2 other v located)⟩
      exact completes_iff call account (by simp [phase]) complete
  | voted _ _ _ _ _ _ _ _ other _ _ _ _ _ _ _ _ _ =>
      exact absurd (phase.symm.trans other) (by decide)
  | tallied _ _ _ other _ => exact absurd (phase.symm.trans other) (by decide)
  | moved _ call _ _ moved =>
      rw [moved.state.1]
      rcases consistent.advance_cases tx.slotTime with stays | ⟨other, _, _⟩ | ⟨_, next⟩
      · simp [stays, call, VotingState.withPhase, phase]
      · exact absurd (phase.symm.trans other) (by decide)
      · simp [next, call, VotingState.withPhase]

theorem step_completes_vote (consistent : PhaseConsistent host.state)
    (phase : host.state.votingPhase = .vote) (tx : Transaction) :
    (step crypto owner host tx).state.votingPhase = .result ↔
      ∃ message sender, tx.call = .vote (some message) ∧ tx.sender = .account sender ∧
        LastMissing host.state Voter.vote sender ∧ step crypto owner host tx ≠ host := by
  obtain ⟨_, missing⟩ := consistent.voting phase
  cases step_cases crypto owner host tx with
  | rejected same => simp [same, phase]
  | registered _ _ _ _ _ other _ _ _ _ _ _ _ => exact absurd (phase.symm.trans other) (by decide)
  | committed _ _ _ _ _ _ _ other _ _ _ => exact absurd (phase.symm.trans other) (by decide)
  | voted message sender voter _ _ call account _ _ _ found _ _ _ decoded _ _ after =>
      have cast : message.vote ≠ [] := by
        intro empty
        rw [empty, crypto.curve.decodePoint_nil] at decoded
        cases decoded
      have failing : ∃ v ∈ host.state.voters.values, ¬ v.vote ≠ [] := by simpa using missing
      have complete : (step crypto owner host tx).state.votingPhase = .result ↔
          LastMissing host.state Voter.vote sender := by
        rw [after]
        simp only [VotingState.voted, ite_eq_left_iff, phase, reduceCtorEq, imp_false,
          not_not, OrderedMap.forall_values_insert_last found failing]
        simp [LastMissing, found, cast]
      exact completes_iff call account (by simp [phase]) complete
  | tallied _ _ _ other _ => exact absurd (phase.symm.trans other) (by decide)
  | moved _ call _ _ moved =>
      rw [moved.state.1]
      rcases consistent.advance_cases tx.slotTime with stays | ⟨other, _, _⟩ | ⟨_, next⟩
      · simp [stays, call, VotingState.withPhase, phase]
      · exact absurd (phase.symm.trans other) (by decide)
      · simp [next, call, VotingState.withPhase]

/-- The phase automaton and what holds in each phase, along every run. -/
theorem phase_automaton {start : Host VotingState} (begins : IsSetup start)
    (txs : List Transaction) (tx : Transaction) :
    let before := run (step crypto owner) start txs
    let after := step crypto owner before tx
    PhaseConsistent before.state ∧
    (after.state.votingPhase = before.state.votingPhase ∨
      VotingPhase.Edge before.state.votingPhase after.state.votingPhase) ∧
    (before.state.votingPhase ≠ .registration →
      after.state.voters.keys = before.state.voters.keys) ∧
    (before.state.votingPhase = .commit →
      (after.state.votingPhase = .vote ↔
        ∃ message sender, tx.call = .commit (some message) ∧ tx.sender = .account sender ∧
          LastMissing before.state Voter.commitment sender ∧ after ≠ before)) ∧
    (before.state.votingPhase = .vote →
      (after.state.votingPhase = .result ↔
        ∃ message sender, tx.call = .vote (some message) ∧ tx.sender = .account sender ∧
          LastMissing before.state Voter.vote sender ∧ after ≠ before)) := by
  intro before after
  have consistent : PhaseConsistent before.state := run_consistent begins txs
  exact ⟨consistent, step_edge consistent tx, fun closed => step_keys closed tx,
    fun phase => step_completes_commit consistent phase tx,
    fun phase => step_completes_vote consistent phase tx⟩

theorem phase_automaton_first_voted :
    PhaseConsistent
      (run (step smallPrimitives (Small.account 0)) Small.start Small.firstVoted).state := by
  have automaton := @phase_automaton smallPrimitives (Small.account 0) Small.start
    Small.start_isSetup Small.firstVoted (Small.send 2 31 0 .changePhase)
  exact automaton.1

end SmartContracts.Voting
