import SmartContracts.Voting.Deadline
import SmartContracts.Voting.Participants

namespace SmartContracts.Voting

open SmartContracts.Chain SmartContracts.Crypto SmartContracts.Data SmartContracts.Data.HashTree
  SmartContracts.OffChain SmartContracts.Semantics

/-! # The rounds of an election

Each round is one invariant: who has acted has their new record, who has not
still has the old one, and the phase moves on with the last of them.  The order
of the messages does not matter, and neither does what others send.
-/

variable {crypto : Primitives} {owner : AccountAddress}

def Participant.sends (participant : Participant crypto) (slotTime : Timestamp)
    (amount : Amount) (call : Call) : Transaction :=
  { sender := .account participant.account, slotTime, amount, call }

def sendersOf (participants : List (Participant crypto)) : List Address :=
  (accountsOf participants).map .account

/-- A transaction by somebody who is not on the list.  To register, they would
have to know a collision of the hash. -/
structure Outside (crypto : Primitives) (accounts : List AccountAddress) (deadline : Timestamp)
    (tx : Transaction) : Prop where
  inTime : tx.slotTime ≤ deadline
  unlisted : tx.sender ∉ accounts.map .account
  collisionFree : ∀ message sender, tx.call = .register (some message) →
    tx.sender = .account sender →
    ¬ Collide crypto.sha256 (treeStrings crypto accounts)
      (checkStrings crypto (Int32.ofNat accounts.length) message.merkleProof sender)

/-- Every participant sends their message of the round once and in time. -/
def Round (participants : List (Participant crypto)) (call : Participant crypto → Call)
    (amount : Amount) (deadline : Timestamp) (txs : List Transaction) : Prop :=
  ∃ slotTime : Participant crypto → Timestamp,
    (∀ participant ∈ participants, slotTime participant ≤ deadline) ∧
    (txs.filter (fun tx => tx.sender ∈ sendersOf participants)).Perm
      (participants.map fun participant =>
        participant.sends (slotTime participant) amount (call participant)) ∧
    ∀ tx ∈ txs, tx.sender ∉ sendersOf participants →
      Outside crypto (accountsOf participants) deadline tx

/-! ## What is recorded of the participants -/

/-- The records of those who have acted and of those who have not. -/
structure Recorded (participants : List (Participant crypto))
    (before after : Participant crypto → Option Voter) (sent : List (Participant crypto))
    (voters : OrderedMap AccountAddress Voter) : Prop where
  acted : ∀ participant ∈ participants, participant ∈ sent →
    voters.get? participant.account = after participant
  waiting : ∀ participant ∈ participants, participant ∉ sent →
    voters.get? participant.account = before participant
  strangers : ∀ account ∉ accountsOf participants, voters.get? account = none

namespace Recorded

variable {participants sent : List (Participant crypto)} {participant : Participant crypto}
  {before after next : Participant crypto → Option Voter} {voter : Voter}
  {voters : OrderedMap AccountAddress Voter}

theorem inserted (recorded : Recorded participants before after sent voters)
    (distinct : (accountsOf participants).Nodup) (member : participant ∈ participants)
    (stores : after participant = some voter) :
    Recorded participants before after (participant :: sent)
      (voters.insert participant.account voter) := by
  have unique : ∀ other ∈ participants, other.account = participant.account →
      other = participant := fun other inside same =>
    List.inj_on_of_nodup_map distinct inside member same
  refine ⟨fun other inside done => ?_, fun other inside missing => ?_, fun account absent => ?_⟩
  · rw [OrderedMap.get?_insert]
    split
    · rename_i same
      rw [unique other inside same, stores]
    · rename_i different
      refine recorded.acted other inside ((List.mem_cons.mp done).resolve_left fun same => ?_)
      exact different (congrArg Participant.account same)
  · have different : other.account ≠ participant.account := fun same =>
      missing (unique other inside same ▸ List.mem_cons_self)
    rw [OrderedMap.get?_insert_other different]
    exact recorded.waiting other inside fun earlier => missing (List.mem_cons_of_mem _ earlier)
  · have different : account ≠ participant.account := fun same =>
      absent (same ▸ List.mem_map_of_mem member)
    rw [OrderedMap.get?_insert_other different]
    exact recorded.strangers account absent

theorem exists_of_get? (recorded : Recorded participants before after sent voters)
    {account : AccountAddress} (found : voters.get? account = some voter) :
    ∃ participant ∈ participants, participant.account = account := by
  have listed : account ∈ accountsOf participants := by
    by_contra absent
    cases found.symm.trans (recorded.strangers account absent)
  exact List.mem_map.mp listed

theorem forall_values (recorded : Recorded participants before after sent voters)
    (everyone : ∀ participant ∈ participants, participant ∈ sent) {holds : Voter → Prop}
    (each : ∀ participant ∈ participants, ∀ voter, after participant = some voter → holds voter) :
    ∀ voter ∈ voters.values, holds voter := by
  intro voter member
  obtain ⟨account, found⟩ := OrderedMap.mem_values.mp member
  obtain ⟨participant, inside, rfl⟩ := recorded.exists_of_get? found
  exact each participant inside voter
    ((recorded.acted participant inside (everyone participant inside)).symm.trans found)

theorem mem_values_waiting (recorded : Recorded participants before after sent voters)
    (member : participant ∈ participants) (waits : participant ∉ sent)
    (stored : before participant = some voter) : voter ∈ voters.values :=
  OrderedMap.mem_values_of_get? ((recorded.waiting participant member waits).trans stored)

theorem restart (recorded : Recorded participants before after sent voters)
    (everyone : ∀ participant ∈ participants, participant ∈ sent) :
    Recorded participants after next [] voters :=
  ⟨fun _ _ done => absurd done List.not_mem_nil,
    fun participant inside _ => recorded.acted participant inside (everyone participant inside),
    recorded.strangers⟩

/-- Where nobody was recorded before, there are as many records as have acted. -/
theorem length_entries (recorded : Recorded participants (fun _ => none) after sent voters)
    (distinct : (accountsOf participants).Nodup) (within : sent ⊆ participants)
    (once : sent.Nodup)
    (stored : ∀ participant ∈ participants, ∃ voter, after participant = some voter) :
    voters.entries.length = sent.length := by
  have keys : voters.keys.Perm (sent.map Participant.account) := by
    refine (List.perm_ext_iff_of_nodup voters.keys_nodup ?_).mpr fun account => ?_
    · exact List.Nodup.map_on (fun p inside q alsoInside same =>
        List.inj_on_of_nodup_map distinct (within inside) (within alsoInside) same) once
    · rw [OrderedMap.mem_keys]
      constructor
      · intro present
        obtain ⟨voter, found⟩ := present
        obtain ⟨participant, inside, rfl⟩ := recorded.exists_of_get? found
        by_contra missing
        have waits : participant ∉ sent := fun done => missing (List.mem_map_of_mem done)
        cases found.symm.trans (recorded.waiting participant inside waits)
      · intro done
        obtain ⟨participant, inside, rfl⟩ := List.mem_map.mp done
        obtain ⟨voter, known⟩ := stored participant (within inside)
        exact ⟨voter, (recorded.acted participant (within inside) inside).trans known⟩
  simpa [OrderedMap.keys] using keys.length_eq

theorem entries_perm (recorded : Recorded participants before after sent voters)
    (distinct : (accountsOf participants).Nodup)
    (everyone : ∀ participant ∈ participants, participant ∈ sent)
    {record : Participant crypto → Voter}
    (stored : ∀ participant ∈ participants, after participant = some (record participant)) :
    voters.entries.Perm
      (participants.map fun participant => (participant.account, record participant)) := by
  refine (List.perm_ext_iff_of_nodup (List.Nodup.of_map Prod.fst voters.keys_nodup) ?_).mpr
    fun entry => ?_
  · exact List.Nodup.of_map Prod.fst (by simpa [accountsOf, Function.comp_def] using distinct)
  · obtain ⟨account, voter⟩ := entry
    rw [← OrderedMap.get?_eq_some]
    constructor
    · intro found
      obtain ⟨participant, inside, rfl⟩ := recorded.exists_of_get? found
      have known := (recorded.acted participant inside (everyone participant inside)).trans
        (stored participant inside)
      obtain rfl : record participant = voter := Option.some.inj (known.symm.trans found)
      exact List.mem_map_of_mem inside
    · intro member
      obtain ⟨participant, inside, same⟩ := List.mem_map.mp member
      cases same
      exact (recorded.acted participant inside (everyone participant inside)).trans
        (stored participant inside)

end Recorded

/-! ## What others send -/

theorem PhaseConsistent.advance_punctual {state : VotingState} (consistent : PhaseConsistent state)
    {now : Timestamp} (punctual : ¬ state.Overdue now) : state.advance now = none := by
  unfold VotingState.Overdue at punctual
  unfold VotingState.advance
  cases phase : state.votingPhase with
  | registration =>
      simp only [phase] at punctual
      simp [punctual]
  | commit =>
      obtain ⟨v, inside, missing⟩ := (consistent.committing phase).2
      simp only [phase] at punctual ⊢
      rw [if_neg fun all => (all v inside).2 missing, if_neg punctual]
  | vote =>
      obtain ⟨v, inside, missing⟩ := (consistent.voting phase).2
      simp only [phase] at punctual ⊢
      rw [if_neg fun all => all v inside missing, if_neg punctual]
  | result => rfl
  | abort => rfl

theorem VotingState.not_overdue {state : VotingState} {now : Timestamp}
    (registering : state.votingPhase = .registration → now ≤ state.config.registrationTimeout)
    (committing : state.votingPhase = .commit → now ≤ state.config.commitTimeout)
    (voting : state.votingPhase = .vote → now ≤ state.config.voteTimeout) :
    ¬ state.Overdue now := by
  unfold Overdue
  cases phase : state.votingPhase with
  | registration => exact UInt64.not_lt.mpr (registering phase)
  | commit => exact UInt64.not_lt.mpr (committing phase)
  | vote => exact UInt64.not_lt.mpr (voting phase)
  | result => exact id
  | abort => exact id

/-- Outsiders can have the result computed and nothing else. -/
theorem Outside.step_eq {host : Host VotingState} {participants : List (Participant crypto)}
    {deadline : Timestamp} {tx : Transaction}
    (outside : Outside crypto (accountsOf participants) deadline tx)
    (organized : Organized host.state.config participants)
    (consistent : PhaseConsistent host.state)
    (strangers : ∀ account ∉ accountsOf participants, host.state.voters.get? account = none)
    (punctual : ¬ host.state.Overdue tx.slotTime) :
    ∃ tally, step crypto owner host tx =
      { host with state := { host.state with votingResult := tally } } := by
  have unknown : ∀ {sender voter}, tx.sender = .account sender →
      host.state.voters.get? sender ≠ some voter := by
    intro sender voter account found
    have absent : sender ∉ accountsOf participants := fun listed =>
      outside.unlisted (account ▸ List.mem_map_of_mem listed)
    cases found.symm.trans (strangers sender absent)
  cases step_cases crypto owner host tx with
  | rejected same => exact ⟨_, same⟩
  | registered message sender _ call account _ verified _ _ _ _ _ _ =>
      have several := organized.several
      have bounded := organized.bounded
      have size := @Organized.length_accountsOf crypto participants
      rw [organized.leafCount, ← size] at verified
      have listed : accountsOf participants ≠ [] := by
        intro empty
        rw [empty, List.length_nil] at size
        omega
      rcases listed_of_verified listed (by omega) organized.root verified with inside | collide
      · exact absurd (account ▸ List.mem_map_of_mem inside) outside.unlisted
      · exact absurd collide (outside.collisionFree message sender call account)
  | committed _ _ _ _ account _ _ _ _ found _ => exact absurd found (unknown account)
  | voted _ _ _ _ _ _ account _ _ _ found _ _ _ _ _ _ _ => exact absurd found (unknown account)
  | tallied _ tally _ _ after => exact ⟨tally, after⟩
  | moved _ _ _ _ moved =>
      rw [consistent.advance_punctual punctual] at moved
      exact ⟨_, moved⟩

/-! ## One round -/

structure Stage (participants : List (Participant crypto)) (config : VoteConfig)
    (current next : VotingPhase) (before after : Participant crypto → Option Voter)
    (sent : List (Participant crypto)) (host : Host VotingState) : Prop where
  consistent : PhaseConsistent host.state
  escrow : Escrow host
  configured : host.state.config = config
  exist : ∀ participant ∈ participants, participant.account ∉ host.missingAccounts
  within : sent ⊆ participants
  once : sent.Nodup
  running : ∀ participant ∈ participants, participant ∉ sent → host.state.votingPhase = current
  finished : (∀ participant ∈ participants, participant ∈ sent) → host.state.votingPhase = next
  recorded : Recorded participants before after sent host.state.voters

namespace Stage

variable {participants sent : List (Participant crypto)} {config : VoteConfig}
  {current next : VotingPhase} {before after : Participant crypto → Option Voter}
  {host : Host VotingState} {participant : Participant crypto} {voter : Voter} {tx : Transaction}

theorem phase (stage : Stage participants config current next before after sent host) :
    host.state.votingPhase = current ∨ host.state.votingPhase = next := by
  by_cases everyone : ∀ participant ∈ participants, participant ∈ sent
  · exact .inr (stage.finished everyone)
  · obtain ⟨participant, missing⟩ := not_forall.mp everyone
    obtain ⟨member, waits⟩ := Classical.not_imp.mp missing
    exact .inl (stage.running participant member waits)

theorem ignores (stage : Stage participants config current next before after sent host)
    (organized : Organized config participants) {deadline : Timestamp}
    (outside : Outside crypto (accountsOf participants) deadline tx)
    (punctual : ¬ host.state.Overdue tx.slotTime) :
    Stage participants config current next before after sent (step crypto owner host tx) := by
  have consistent := @step_consistent crypto owner host stage.consistent tx
  obtain ⟨tally, same⟩ := @Outside.step_eq crypto owner host participants deadline tx outside
    (stage.configured ▸ organized) stage.consistent stage.recorded.strangers punctual
  rw [same] at consistent ⊢
  exact ⟨consistent, ⟨stage.escrow.funded, stage.escrow.refunded⟩, stage.configured, stage.exist,
    stage.within, stage.once, stage.running, stage.finished, stage.recorded⟩

/-- A step that stores the record of one who had not acted, and tests whether
that was the last, extends the stage. -/
theorem acts (stage : Stage participants config current next before after sent host)
    (distinct : (accountsOf participants).Nodup) (member : participant ∈ participants)
    (waits : participant ∉ sent) (stores : after participant = some voter)
    (alive : current ≠ .abort ∧ next ≠ .abort) {test : Prop} [testDecidable : Decidable test]
    (voters : (step crypto owner host tx).state.voters =
      host.state.voters.insert participant.account voter)
    (moves : (step crypto owner host tx).state.votingPhase = if test then next else current)
    (complete : Recorded participants before after (participant :: sent)
        (host.state.voters.insert participant.account voter) →
      (test ↔ ∀ other ∈ participants, other ∈ participant :: sent)) :
    Stage participants config current next before after (participant :: sent)
      (step crypto owner host tx) := by
  obtain ⟨configured, missing⟩ := @step_fixed crypto owner host tx
  have recorded := stage.recorded.inserted distinct member stores
  have last := complete recorded
  have escrow : Escrow (step crypto owner host tx) := by
    refine step_escrow stage.escrow tx ?_
    rw [moves]
    split
    · exact alive.2
    · exact alive.1
  refine ⟨step_consistent stage.consistent tx, escrow, configured.trans stage.configured,
    fun other inside => missing ▸ stage.exist other inside,
    List.cons_subset.mpr ⟨member, stage.within⟩, List.nodup_cons.mpr ⟨waits, stage.once⟩,
    fun other inside absent => ?_, fun everyone => ?_, voters ▸ recorded⟩
  · rw [moves, if_neg fun done => absent (last.mp done other inside)]
  · rw [moves, if_pos (last.mpr everyone)]

theorem restart {following : VotingPhase} {later : Participant crypto → Option Voter}
    (stage : Stage participants config current next before after sent host)
    (everyone : ∀ participant ∈ participants, participant ∈ sent)
    (someone : participants ≠ []) :
    Stage participants config next following after later [] host := by
  refine ⟨stage.consistent, stage.escrow, stage.configured, stage.exist, List.nil_subset _,
    List.nodup_nil, fun _ _ _ => stage.finished everyone, fun impossible => ?_,
    stage.recorded.restart everyone⟩
  obtain ⟨participant, member⟩ := List.exists_mem_of_ne_nil _ someone
  exact absurd (impossible participant member) List.not_mem_nil

end Stage

theorem int32_ofNat_inj {m n : ℕ} (small : m < 2 ^ 31) (alsoSmall : n < 2 ^ 31) :
    Int32.ofNat m = Int32.ofNat n ↔ m = n := by
  refine ⟨fun same => ?_, congrArg Int32.ofNat⟩
  have values := congrArg Int32.toInt same
  rw [Int32.toInt_ofNat_of_lt (by omega), Int32.toInt_ofNat_of_lt (by omega)] at values
  exact_mod_cast values

section Rounds

variable {participants sent : List (Participant crypto)} {participant : Participant crypto}
  {config : VoteConfig} {host : Host VotingState} {slotTime : Timestamp}
  (organized : Organized config participants)

include organized

/-- A round in which each participant extends the stage completes it. -/
theorem Stage.round {current next : VotingPhase} {before after : Participant crypto → Option Voter}
    {amount : Amount} {deadline : Timestamp} {call : Participant crypto → Call}
    {start : Host VotingState} {txs : List Transaction}
    (initially : Stage participants config current next before after [] start)
    (punctual : ∀ state : VotingState, state.config = config →
      state.votingPhase = current ∨ state.votingPhase = next →
      ∀ now ≤ deadline, ¬ state.Overdue now)
    (speaks : ∀ sent participant host slotTime, participant ∈ participants →
      participant ∉ sent → slotTime ≤ deadline →
      Stage participants config current next before after sent host →
      Stage participants config current next before after (participant :: sent)
        (step crypto owner host (participant.sends slotTime amount (call participant))))
    (round : Round participants call amount deadline txs) :
    ∃ sent, (∀ participant ∈ participants, participant ∈ sent) ∧
      Stage participants config current next before after sent
        (run (step crypto owner) start txs) := by
  obtain ⟨slotTime, timely, sends, others⟩ := round
  have distinct : participants.Nodup := List.Nodup.of_map Participant.account organized.accounts
  obtain ⟨sent, everyone, stage⟩ := run_interleaved distinct
    (fun sent participant host member waits stage =>
      speaks sent participant host _ member waits (timely participant member) stage)
    (fun sent tx host (outside : Outside crypto (accountsOf participants) deadline tx) stage =>
      stage.ignores organized outside
        (punctual _ stage.configured stage.phase _ outside.inTime))
    initially sends others
  exact ⟨sent, fun participant member => everyone.symm.subset member, stage⟩

variable (total : ∀ bytes, ∃ scalar, crypto.hashToScalar bytes = some scalar)
  (member : participant ∈ participants) (waits : participant ∉ sent)

include total member waits

theorem register_speaks (inTime : slotTime ≤ config.registrationTimeout)
    (stage : Stage participants config .registration .commit (fun _ => none)
      (Participant.registered · (createMerkleTree crypto (accountsOf participants))) sent host) :
    Stage participants config .registration .commit (fun _ => none)
      (Participant.registered · (createMerkleTree crypto (accountsOf participants)))
      (participant :: sent)
      (step crypto owner host (participant.sends slotTime config.deposit (.register
        (participant.register (createMerkleTree crypto (accountsOf participants)))))) := by
  obtain ⟨message, voter, parsed, verified, decoded, proved, stores, rfl⟩ :=
    organized.registers total member
  have phase := stage.running participant member waits
  have configured := stage.configured
  have stepped : step crypto owner host (participant.sends slotTime config.deposit (.register
      (participant.register (createMerkleTree crypto (accountsOf participants))))) =
      { host.receiving config.deposit with
        state := host.state.registered participant.account message } := by
    refine Host.transact_of_ok (register_ok.mpr ⟨message, participant.account, parsed, rfl, phase,
      ?_, ?_, ?_, stage.recorded.waiting participant member waits, ⟨_, decoded, proved⟩, rfl⟩)
    · rw [Host.receiving_state, configured]
      exact verified
    · exact congrArg VoteConfig.deposit configured
    · rw [Host.receiving_state, configured]
      exact inTime
  have moves : (step crypto owner host (participant.sends slotTime config.deposit (.register
      (participant.register (createMerkleTree crypto (accountsOf participants)))))).state.votingPhase =
      if Int32.ofNat (host.state.voters.insert participant.account { (default : Voter) with
        votingKey := message.votingKey
        votingKeyZkp := message.votingKeyZkp }).entries.length = config.merkleLeafCount then .commit
      else .registration := by
    rw [stepped]
    simp only [VotingState.registered, phase, configured]
  refine stage.acts organized.accounts member waits stores (by decide) (by rw [stepped]; rfl)
    moves ?_
  · intro recorded
    have within : participant :: sent ⊆ participants := List.cons_subset.mpr ⟨member, stage.within⟩
    have once : (participant :: sent).Nodup := List.nodup_cons.mpr ⟨waits, stage.once⟩
    have fewer : (participant :: sent).Subperm participants := List.subperm_of_subset once within
    have size := recorded.length_entries organized.accounts within once fun other inside => by
      obtain ⟨_, voter, _, _, _, _, stored, _⟩ := organized.registers total inside
      exact ⟨voter, stored⟩
    have bounded := organized.bounded
    have count := fewer.length_le
    rw [size, organized.leafCount, int32_ofNat_inj (by omega) (by omega)]
    constructor
    · intro last other inside
      exact (fewer.perm_of_length_le last.ge).symm.subset inside
    · intro everyone
      have distinct : participants.Nodup :=
        List.Nodup.of_map Participant.account organized.accounts
      exact Nat.le_antisymm count (List.subperm_of_subset distinct everyone).length_le

theorem commit_speaks (inTime : slotTime ≤ config.commitTimeout)
    (stage : Stage participants config .commit .vote
      (Participant.registered · (createMerkleTree crypto (accountsOf participants)))
      (Participant.committed · (createMerkleTree crypto (accountsOf participants))
        (keysOf participants)) sent host) :
    Stage participants config .commit .vote
      (Participant.registered · (createMerkleTree crypto (accountsOf participants)))
      (Participant.committed · (createMerkleTree crypto (accountsOf participants))
        (keysOf participants)) (participant :: sent)
      (step crypto owner host (participant.sends slotTime 0
        (.commit (participant.commit (keysOf participants))))) := by
  obtain ⟨message, voter, committed, parsed, hashed, keyed, registered, stores, rfl⟩ :=
    organized.commits total member
  have phase := stage.running participant member waits
  have stepped : step crypto owner host (participant.sends slotTime 0
      (.commit (participant.commit (keysOf participants)))) =
      { host with state := host.state.committed participant.account voter message } := by
    refine Host.transactUnpaid_of_ok (commit_ok.mpr ⟨message, participant.account, voter, parsed,
      rfl, hashed, keyed, phase, ?_, ?_, rfl⟩)
    · rw [stage.configured]
      exact inTime
    · exact (stage.recorded.waiting participant member waits).trans registered
  have moves : (step crypto owner host (participant.sends slotTime 0
      (.commit (participant.commit (keysOf participants))))).state.votingPhase =
      if ∀ v ∈ (host.state.voters.insert participant.account { voter with
          reconstructedKey := message.reconstructedKey
          commitment := message.commitment }).values,
        v.commitment ≠ [] ∧ v.reconstructedKey ≠ [] then .vote else .commit := by
    rw [stepped]
    simp only [VotingState.committed, phase]
  refine stage.acts organized.accounts member waits stores (by decide) (by rw [stepped]; rfl)
    moves fun recorded => ⟨fun test other inside => ?_, fun everyone => ?_⟩
  · by_contra missing
    obtain ⟨_, blank, _, _, _, _, stored, rfl⟩ := organized.registers total inside
    exact (test _ (recorded.mem_values_waiting inside missing stored)).1 rfl
  · refine recorded.forall_values everyone fun other inside found stored => ?_
    obtain ⟨_, _, _, _, otherHashed, otherKeyed, _, alsoStored, rfl⟩ :=
      organized.commits total inside
    obtain rfl := Option.some.inj (alsoStored.symm.trans stored)
    exact ⟨otherHashed, otherKeyed⟩

theorem vote_speaks (inTime : slotTime ≤ config.voteTimeout)
    (stage : Stage participants config .vote .result
      (Participant.committed · (createMerkleTree crypto (accountsOf participants))
        (keysOf participants))
      (Participant.voted · (createMerkleTree crypto (accountsOf participants))
        (keysOf participants)) sent host) :
    Stage participants config .vote .result
      (Participant.committed · (createMerkleTree crypto (accountsOf participants))
        (keysOf participants))
      (Participant.voted · (createMerkleTree crypto (accountsOf participants))
        (keysOf participants)) (participant :: sent)
      (step crypto owner host (participant.sends slotTime 0
        (.vote (participant.vote (keysOf participants))))) := by
  obtain ⟨message, voter, voted, gY, parsed, committed, unvoted, keyed, proved, decoded, checked,
    stores, _, rfl⟩ := organized.votes total member
  have phase := stage.running participant member waits
  have found := (stage.recorded.waiting participant member waits).trans committed
  have payable := stage.escrow.covers (stage.exist participant member) found unvoted
  have stepped : step crypto owner host (participant.sends slotTime 0
      (.vote (participant.vote (keysOf participants)))) =
      { host.paid [(participant.account, host.state.config.deposit)] with
        state := host.state.voted participant.account voter message } := by
    refine Host.transactUnpaid_of_ok (vote_ok.mpr ⟨message, participant.account, voter, parsed,
      rfl, phase, ?_, found, unvoted, ⟨gY, keyed, proved⟩, ⟨_, decoded, checked⟩, payable, rfl⟩)
    rw [stage.configured]
    exact inTime
  have moves : (step crypto owner host (participant.sends slotTime 0
      (.vote (participant.vote (keysOf participants))))).state.votingPhase =
      if ∀ v ∈ (host.state.voters.insert participant.account { voter with
          vote := message.vote
          voteZkp := message.voteZkp }).values, v.vote ≠ [] then .result else .vote := by
    rw [stepped]
    simp only [VotingState.voted, phase]
  refine stage.acts organized.accounts member waits stores (by decide) (by rw [stepped]; rfl)
    moves fun recorded => ⟨fun test other inside => ?_, fun everyone => ?_⟩
  · by_contra missing
    obtain ⟨_, _, _, _, _, stored, blank, _⟩ := organized.votes total inside
    exact test _ (recorded.mem_values_waiting inside missing stored) blank
  · refine recorded.forall_values everyone fun other inside found stored empty => ?_
    obtain ⟨_, _, _, _, _, _, _, _, _, otherDecoded, _, alsoStored, _, rfl⟩ :=
      organized.votes total inside
    obtain rfl := Option.some.inj (alsoStored.symm.trans stored)
    simp only at empty
    rw [empty, crypto.curve.decodePoint_nil] at otherDecoded
    cases otherDecoded

end Rounds

end SmartContracts.Voting
