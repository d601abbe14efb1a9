import SmartContracts.Voting.Phases

namespace SmartContracts.Voting

open SmartContracts.Chain SmartContracts.Crypto SmartContracts.Data SmartContracts.Semantics

/-! # How many voters a vote goes on with

Registration ends after its deadline when three voters are there, or with the
registration that makes as many voters as the Merkle tree has leaves.  The
second way keeps to no minimum of its own, so a tree with one or two leaves
opens a vote for one or two voters.
-/

/-- The tree is too small for three voters. -/
def VoteConfig.TooSmall (config : VoteConfig) : Prop :=
  config.merkleLeafCount = 1 ∨ config.merkleLeafCount = 2

structure Turnout (state : VotingState) : Prop where
  registering : state.votingPhase = .registration →
    (state.config.merkleLeafCount = 1 → state.voters.entries.length = 0) ∧
    (state.config.merkleLeafCount = 2 → state.voters.entries.length ≤ 1)
  voting : state.votingPhase ≠ .registration → state.votingPhase ≠ .abort →
    (state.config.TooSmall → state.voters.entries.length ≤ 2) ∧
    (¬ state.config.TooSmall → 3 ≤ state.voters.entries.length)

theorem VotingState.advance_commit {state : VotingState} {now : Timestamp}
    (opens : state.advance now = some .commit) : 3 ≤ state.voters.entries.length := by
  unfold advance at opens
  cases phase : state.votingPhase with
  | registration =>
      simp only [phase] at opens
      split at opens
      · rename_i enough
        have counted := List.length_filter_le (fun v => v.votingKey ≠ []) state.voters.values
        simp only [OrderedMap.values, List.length_map] at counted enough
        omega
      · split at opens <;> cases opens
  | commit | vote =>
      simp only [phase] at opens
      split at opens
      · cases opens
      · split at opens <;> cases opens
  | result | abort => simp [phase] at opens

namespace Turnout

variable {state after : VotingState} {sender : AccountAddress}

theorem initially {start : Host VotingState} (begins : IsSetup start) : Turnout start.state := by
  obtain ⟨_, state, _⟩ := begins.config
  rw [state]
  exact ⟨fun _ => ⟨fun _ => rfl, fun _ => Nat.zero_le _⟩, fun began => absurd rfl began⟩

/-- The last leaf opens the commit phase, whatever the number of leaves. -/
theorem registered (turnout : Turnout state) {message : RegisterMessage}
    (phase : state.votingPhase = .registration) (fresh : state.voters.get? sender = none) :
    Turnout (state.registered sender message) := by
  obtain ⟨one, two⟩ := turnout.registering phase
  have counted : (state.registered sender message).voters.entries.length =
      state.voters.entries.length + 1 :=
    OrderedMap.length_insert_fresh fresh _
  have next : (state.registered sender message).votingPhase =
      if Int32.ofNat (state.voters.entries.length + 1) = state.config.merkleLeafCount then .commit
      else state.votingPhase := by
    rw [← counted]
    rfl
  by_cases last : Int32.ofNat (state.voters.entries.length + 1) = state.config.merkleLeafCount
  · rw [if_pos last] at next
    refine ⟨fun stays => ?_, fun _ _ => ?_⟩
    · rw [next] at stays
      cases stays
    · rw [counted]
      change (state.config.TooSmall → _) ∧ (¬ state.config.TooSmall → _)
      refine ⟨fun small => ?_, fun large => ?_⟩
      · rcases small with leaf | leaves
        · rw [one leaf]
          decide
        · exact Nat.succ_le_succ (two leaves)
      · by_contra few
        have sizes : state.voters.entries.length = 0 ∨ state.voters.entries.length = 1 := by omega
        rcases sizes with none | single
        · rw [none] at last
          exact large (.inl last.symm)
        · rw [single] at last
          exact large (.inr last.symm)
  · rw [if_neg last] at next
    refine ⟨fun _ => ?_, fun began => absurd (next.trans phase) began⟩
    rw [counted]
    change (state.config.merkleLeafCount = 1 → _) ∧ (state.config.merkleLeafCount = 2 → _)
    refine ⟨fun leaf => ?_, fun leaves => ?_⟩
    · rw [one leaf, leaf] at last
      exact absurd rfl last
    · have sizes : state.voters.entries.length = 0 ∨ state.voters.entries.length = 1 := by
        have few := two leaves
        omega
      rcases sizes with none | single
      · rw [none]
      · rw [single, leaves] at last
        exact absurd rfl last

/-- Nothing but the phase and the entries of voters is written after that. -/
theorem continued (turnout : Turnout state) (config : after.config = state.config)
    (voters : after.voters.entries.length = state.voters.entries.length)
    (began : state.votingPhase ≠ .registration) (alive : state.votingPhase ≠ .abort)
    (on : after.votingPhase ≠ .registration) : Turnout after := by
  obtain ⟨few, many⟩ := turnout.voting began alive
  refine ⟨fun phase => absurd phase on, fun _ _ => ?_⟩
  rw [config, voters]
  exact ⟨few, many⟩

end Turnout

variable {crypto : Primitives} {owner : AccountAddress} {host : Host VotingState}

theorem step_turnout (consistent : PhaseConsistent host.state) (turnout : Turnout host.state)
    (tx : Transaction) : Turnout (step crypto owner host tx).state := by
  cases step_cases crypto owner host tx with
  | rejected same => rwa [same]
  | registered _ _ _ _ _ phase _ _ _ fresh _ _ after =>
      rw [after]
      exact turnout.registered phase fresh
  | committed _ _ _ _ _ _ _ phase _ found after =>
      rw [after]
      refine turnout.continued rfl (OrderedMap.length_insert_present found _) (by simp [phase])
        (by simp [phase]) ?_
      simp only [VotingState.committed, phase]
      split <;> decide
  | voted _ _ _ _ _ _ _ _ phase _ found _ _ _ _ _ _ after =>
      rw [after]
      refine turnout.continued rfl (OrderedMap.length_insert_present found _) (by simp [phase])
        (by simp [phase]) ?_
      simp only [VotingState.voted, phase]
      split <;> decide
  | tallied _ _ _ phase after =>
      rw [after]
      exact turnout.continued rfl rfl (by simp [phase]) (by simp [phase]) (by simp [phase])
  | moved _ _ _ _ moved =>
      rw [moved.state.1]
      rcases consistent.advance_cases tx.slotTime with stays | ⟨phase, opens, _⟩ | ⟨_, aborts⟩
      · rw [stays]
        exact turnout
      · have enough := VotingState.advance_commit opens
        obtain ⟨one, two⟩ := turnout.registering phase
        rw [opens]
        refine ⟨fun stays => ?_, fun _ _ => ⟨fun small => ?_, fun _ => enough⟩⟩
        · cases stays
        · -- A small tree has registered too few for the deadline to open the phase.
          change host.state.voters.entries.length ≤ 2
          rcases small with leaf | leaves
          · rw [one leaf]
            decide
          · exact Nat.le_succ_of_le (two leaves)
      · rw [aborts]
        refine ⟨fun stays => ?_, fun _ alive => absurd rfl alive⟩
        cases stays

theorem run_turnout {start : Host VotingState} (begins : IsSetup start) (txs : List Transaction) :
    Turnout (run (step crypto owner) start txs).state := by
  exact @run_consistently crypto owner (fun host => Turnout host.state) start begins
    (.initially begins) (fun _ tx consistent turnout => step_turnout consistent turnout tx) txs

/-- A vote goes on with three voters or more, except on a tree with one or two
leaves, where it always goes on with fewer. -/
theorem turnout_iff {start : Host VotingState} (begins : IsSetup start)
    (txs : List Transaction) :
    let state := (run (step crypto owner) start txs).state
    state.votingPhase = .commit ∨ state.votingPhase = .vote ∨ state.votingPhase = .result →
    (3 ≤ state.voters.entries.length ↔
      start.state.config.merkleLeafCount ≠ 1 ∧ start.state.config.merkleLeafCount ≠ 2) := by
  intro state phases
  have config : state.config = start.state.config :=
    @run_invariant _ _ (step crypto owner) (fun host => host.state.config = start.state.config)
      start rfl (fun host tx same => (step_fixed host tx).1.trans same) txs
  have turnout : Turnout state := run_turnout begins txs
  have began : state.votingPhase ≠ .registration := by
    rcases phases with phase | phase | phase <;> simp [phase]
  have alive : state.votingPhase ≠ .abort := by
    rcases phases with phase | phase | phase <;> simp [phase]
  obtain ⟨few, many⟩ := turnout.voting began alive
  rw [← config, ← not_or]
  refine ⟨fun enough small => ?_, many⟩
  have short := few small
  omega

/-- Two voters are all there are, so their registrations open the commit phase. -/
theorem turnout_two_leaves :
    let state := (run (step smallPrimitives (Small.account 0)) Small.start
      (Small.firstVoted.take 2)).state
    IsSetup Small.start ∧ state.votingPhase = .commit ∧ state.voters.entries.length = 2 := by
  refine ⟨Small.start_isSetup, ?_⟩
  decide +kernel

theorem turnout_iff_two_leaves :
    ¬ 3 ≤ (run (step smallPrimitives (Small.account 0)) Small.start
      (Small.firstVoted.take 2)).state.voters.entries.length := by
  intro enough
  have leaves := (turnout_iff Small.start_isSetup (Small.firstVoted.take 2)
    (.inl (by decide +kernel))).mp enough
  exact leaves.2 (by decide +kernel)

end SmartContracts.Voting
