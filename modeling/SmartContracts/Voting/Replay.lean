import SmartContracts.Voting.Finality

namespace SmartContracts.Voting

open SmartContracts.Chain SmartContracts.Crypto SmartContracts.Data SmartContracts.Semantics

/-! # Voting keys registered twice

`register` looks at the sender, the deposit and the message alone.  Voting keys
are kept apart only by the voters, each of whom registers a key that is not
stored yet.
-/

def VotingState.KeysDistinct (state : VotingState) : Prop :=
  ∀ first second v w, state.voters.get? first = some v → state.voters.get? second = some w →
    first ≠ second → v.votingKey ≠ w.votingKey

def Transaction.Registers (crypto : Primitives) (owner : AccountAddress)
    (host : Host VotingState) (tx : Transaction) (message : RegisterMessage) : Prop :=
  tx.call = .register (some message) ∧
    (host.returned tx.amount
      (register crypto (tx.context owner) tx.amount (some message))).isSome = true

/-- A registration that is accepted brings a key that is not stored. -/
def NewKey (crypto : Primitives) (owner : AccountAddress) (host : Host VotingState)
    (tx : Transaction) : Prop :=
  ∀ message, tx.Registers crypto owner host message →
    ∀ v ∈ host.state.voters.values, v.votingKey ≠ message.votingKey

variable {crypto : Primitives} {owner : AccountAddress} {host : Host VotingState}
  {tx : Transaction} {message : RegisterMessage}

theorem Transaction.registers_iff :
    tx.Registers crypto owner host message ↔
      tx.call = .register (some message) ∧ ∃ sender, tx.sender = .account sender ∧
        host.state.votingPhase = .registration ∧
        verifyMerkleProof crypto host.state.config.merkleRoot host.state.config.merkleLeafCount
          message.merkleProof sender = some true ∧
        host.state.config.deposit = tx.amount ∧
        tx.slotTime ≤ host.state.config.registrationTimeout ∧
        host.state.voters.get? sender = none ∧
        ∃ key, crypto.curve.decodePoint message.votingKey = some key ∧
          verifySchnorrZkp crypto key message.votingKeyZkp = some true := by
  refine and_congr_right fun _ => ?_
  rw [Option.isSome_iff_exists]
  simp only [Host.returned_eq_some]
  constructor
  · intro accepted
    obtain ⟨_, _, returned⟩ := accepted
    obtain ⟨_, sender, same, account, phase, verified, deposit, inTime, fresh, proved, _⟩ :=
      register_ok.mp returned
    cases same
    exact ⟨sender, account, phase, verified, deposit, inTime, fresh, proved⟩
  · intro admitted
    obtain ⟨sender, account, phase, verified, deposit, inTime, fresh, proved⟩ := admitted
    exact ⟨_, (), register_ok.mpr ⟨message, sender, rfl, account, phase, verified, deposit,
      inTime, fresh, proved, rfl⟩⟩

theorem step_registers (registers : tx.Registers crypto owner host message) :
    ∃ sender, tx.sender = .account sender ∧ host.state.voters.get? sender = none ∧
      (step crypto owner host tx).state = host.state.registered sender message := by
  obtain ⟨call, accepted⟩ := registers
  obtain ⟨after, returned⟩ := Option.isSome_iff_exists.mp accepted
  obtain ⟨_, returned⟩ := Host.returned_eq_some.mp returned
  obtain ⟨_, sender, same, account, _, _, _, _, fresh, _, left⟩ := register_ok.mp returned
  cases same
  refine ⟨sender, account, fresh, ?_⟩
  simp only [step, call, Host.transact, returned, left]
  rfl

/-- Voters enter by registering and keep their key afterwards. -/
theorem step_keeps_keys (unregistered : ∀ message, ¬ tx.Registers crypto owner host message)
    (account : AccountAddress) :
    ((step crypto owner host tx).state.voters.get? account).map Voter.votingKey =
      (host.state.voters.get? account).map Voter.votingKey := by
  have rewritten : ∀ {sender : AccountAddress} {voter written : Voter},
      host.state.voters.get? sender = some voter → written.votingKey = voter.votingKey →
      ((host.state.voters.insert sender written).get? account).map Voter.votingKey =
        (host.state.voters.get? account).map Voter.votingKey := by
    intro sender voter written found same
    rw [OrderedMap.get?_insert]
    split
    · rename_i own
      rw [own, found, Option.map_some, Option.map_some, same]
    · rfl
  cases step_cases crypto owner host tx with
  | rejected same => rw [same]
  | registered message sender key call account phase verified deposit inTime fresh decoded proved =>
      exact absurd (Transaction.registers_iff.mpr ⟨call, sender, account, phase, verified,
        deposit, inTime, fresh, key, decoded, proved⟩) (unregistered message)
  | committed _ _ _ _ _ _ _ _ _ found after =>
      rw [after]
      exact rewritten found rfl
  | voted _ _ _ _ _ _ _ _ _ _ found _ _ _ _ _ _ after =>
      rw [after]
      exact rewritten found rfl
  | tallied _ _ _ _ after => rw [after]
  | moved _ _ _ _ moved => rw [moved.state.1]; rfl

theorem VotingState.keysDistinct_iff {state : VotingState} :
    state.KeysDistinct ↔ ∀ first second key,
      (state.voters.get? first).map Voter.votingKey = some key →
      (state.voters.get? second).map Voter.votingKey = some key → first = second := by
  simp only [Option.map_eq_some_iff]
  constructor
  · intro distinct first second key named other
    obtain ⟨v, found, rfl⟩ := named
    obtain ⟨w, located, same⟩ := other
    by_contra different
    exact distinct first second v w found located different same.symm
  · intro injective first second v w found located different same
    exact different
      (injective first second v.votingKey ⟨v, found, rfl⟩ ⟨w, located, same.symm⟩)

/-- A registration keeps the keys apart just when it brings a new one. -/
theorem VotingState.registered_distinct {state : VotingState} {sender : AccountAddress}
    (fresh : state.voters.get? sender = none) :
    (state.registered sender message).KeysDistinct ↔
      state.KeysDistinct ∧ ∀ v ∈ state.voters.values, v.votingKey ≠ message.votingKey := by
  have own : (state.registered sender message).voters.get? sender =
      some { (default : Voter) with
        votingKey := message.votingKey, votingKeyZkp := message.votingKeyZkp } :=
    OrderedMap.get?_insert_self
  have others : ∀ account, account ≠ sender →
      (state.registered sender message).voters.get? account = state.voters.get? account :=
    fun _ different => OrderedMap.get?_insert_other different
  have present : ∀ {account v}, state.voters.get? account = some v → account ≠ sender := by
    rintro account v found rfl
    cases fresh.symm.trans found
  constructor
  · intro distinct
    refine ⟨fun first second v w found located => ?_, fun v member => ?_⟩
    · rw [← others first (present found)] at found
      rw [← others second (present located)] at located
      exact distinct first second v w found located
    · obtain ⟨account, found⟩ := OrderedMap.mem_values.mp member
      have apart := present found
      rw [← others account apart] at found
      exact distinct account sender v _ found own apart
  · intro kept first second v w found located different
    obtain ⟨distinct, unused⟩ := kept
    by_cases isFirst : first = sender
    · subst isFirst
      cases Option.some.inj (own.symm.trans found)
      rw [others second different.symm] at located
      exact (unused w (OrderedMap.mem_values_of_get? located)).symm
    · rw [others first isFirst] at found
      by_cases isSecond : second = sender
      · subst isSecond
        cases Option.some.inj (own.symm.trans located)
        exact unused v (OrderedMap.mem_values_of_get? found)
      · rw [others second isSecond] at located
        exact distinct first second v w found located different

theorem step_distinct (host : Host VotingState) (tx : Transaction) :
    (step crypto owner host tx).state.KeysDistinct ↔
      host.state.KeysDistinct ∧ NewKey crypto owner host tx := by
  by_cases registering : ∃ message, tx.Registers crypto owner host message
  · obtain ⟨message, registers⟩ := registering
    obtain ⟨sender, _, fresh, after⟩ := step_registers registers
    rw [after, VotingState.registered_distinct fresh]
    refine and_congr_right fun _ => ⟨fun unused other again => ?_, fun new => ?_⟩
    · cases registers.1.symm.trans again.1
      exact unused
    · exact new message registers
  · have unregistered := not_exists.mp registering
    rw [VotingState.keysDistinct_iff, VotingState.keysDistinct_iff]
    simp only [step_keeps_keys unregistered]
    exact ⟨fun distinct => ⟨distinct, fun message registers => absurd registers
      (unregistered message)⟩, And.left⟩

/-- A stored key is a point with a proof that verifies. -/
def Voter.KeyProved (crypto : Primitives) (v : Voter) : Prop :=
  ∃ key, crypto.curve.decodePoint v.votingKey = some key ∧
    verifySchnorrZkp crypto key v.votingKeyZkp = some true

theorem step_proved (stored : ∀ v ∈ host.state.voters.values, v.KeyProved crypto)
    (tx : Transaction) :
    ∀ v ∈ (step crypto owner host tx).state.voters.values, v.KeyProved crypto := by
  cases step_cases crypto owner host tx with
  | rejected same => rwa [same]
  | registered _ _ key _ _ _ _ _ _ _ decoded proved after =>
      rw [after]
      exact OrderedMap.forall_values_insert stored ⟨key, decoded, proved⟩
  | committed _ _ voter _ _ _ _ _ _ found after =>
      rw [after]
      exact OrderedMap.forall_values_insert stored
        (stored voter (OrderedMap.mem_values_of_get? found))
  | voted _ _ voter _ _ _ _ _ _ _ found _ _ _ _ _ _ after =>
      rw [after]
      exact OrderedMap.forall_values_insert stored
        (stored voter (OrderedMap.mem_values_of_get? found))
  | tallied _ _ _ _ after => rwa [after]
  | moved _ _ _ _ moved => rwa [moved.state.1]

/-- Voting keys are distinct as long as every accepted registration brings a new
one.  The contract does not see to it: a stored key is accepted, with the proof
stored next to it, from whoever may still register. -/
theorem keys_distinct_iff {start : Host VotingState} (begins : IsSetup start)
    (txs : List Transaction) :
    let host := run (step crypto owner) start txs
    (host.state.KeysDistinct ↔ Along (step crypto owner) (NewKey crypto owner) start txs) ∧
    ∀ account v sender tx message, host.state.voters.get? account = some v →
      tx.call = .register (some message) → message.votingKey = v.votingKey →
      message.votingKeyZkp = v.votingKeyZkp → tx.sender = .account sender →
      host.state.votingPhase = .registration →
      verifyMerkleProof crypto host.state.config.merkleRoot host.state.config.merkleLeafCount
        message.merkleProof sender = some true →
      host.state.config.deposit = tx.amount →
      tx.slotTime ≤ host.state.config.registrationTimeout →
      host.state.voters.get? sender = none →
      tx.Registers crypto owner host message ∧
        ∃ w, (step crypto owner host tx).state.voters.get? sender = some w ∧
          w.votingKey = v.votingKey := by
  intro host
  refine ⟨?_, ?_⟩
  · refine (@run_iff _ _ (step crypto owner) (NewKey crypto owner) (fun _ => True)
      (fun host => host.state.KeysDistinct) (fun _ _ => True) _ txs trivial
      (fun _ _ _ _ => trivial) (fun host tx _ _ => step_distinct host tx)
      (along_of_mem (fun _ _ _ => trivial) _)).trans (and_iff_right ?_)
    intro _ _ v _ found
    have nobody : ∀ v ∈ start.state.voters.values, False := begins.forall_voters
    exact (nobody v (OrderedMap.mem_values_of_get? found)).elim
  · intro account v sender tx message found call sameKey sameZkp account phase verified deposit
      inTime fresh
    have proved := @run_invariant _ _ (step crypto owner) (fun host =>
      ∀ v ∈ host.state.voters.values, v.KeyProved crypto) _
      begins.forall_voters
      (fun host tx stored => step_proved stored tx) txs v (OrderedMap.mem_values_of_get? found)
    obtain ⟨key, decoded, checked⟩ := proved
    have registers : tx.Registers crypto owner host message :=
      Transaction.registers_iff.mpr ⟨call, sender, account, phase, verified, deposit, inTime,
        fresh, key, sameKey ▸ decoded, sameZkp ▸ checked⟩
    obtain ⟨_, other, _, after⟩ := step_registers registers
    cases account.symm.trans other
    exact ⟨registers, _, by rw [after]; exact OrderedMap.get?_insert_self, sameKey⟩

namespace Small

def copied (merkleProof : MerkleProof) : Option RegisterMessage :=
  registerMessage smallPrimitives (2 : ℕ) (7 : ℕ) merkleProof

def secondMember : MerkleProof := ⟨(leaf 1).toList, leaf 2, 1⟩

def replays : Transaction := send 2 1 5 (.register (copied secondMember))

/-- The second voter registers the key and the proof of the first. -/
def replayed : List Transaction :=
  [send 1 1 5 (.register (copied ⟨(leaf 2).toList, leaf 1, 0⟩)), replays]

end Small

theorem keys_distinct_iff_second_replays :
    let host := run (step smallPrimitives (Small.account 0)) Small.start (Small.replayed.take 1)
    ∃ message, Small.replays.Registers smallPrimitives (Small.account 0) host message ∧
      ∃ v w, host.state.voters.get? (Small.account 1) = some v ∧
        (step smallPrimitives (Small.account 0) host Small.replays).state.voters.get?
          (Small.account 2) = some w ∧ w.votingKey = v.votingKey := by
  have reached : ∀ host, run (step smallPrimitives (Small.account 0)) Small.start
      (Small.replayed.take 1) = host →
      (host.state.voters.get? (Small.account 1)).map
        (fun v => (v.votingKey, v.votingKeyZkp)) =
        (Small.copied Small.secondMember).map
          (fun message => (message.votingKey, message.votingKeyZkp)) ∧
      host.state.votingPhase = .registration ∧
      verifyMerkleProof smallPrimitives host.state.config.merkleRoot
        host.state.config.merkleLeafCount Small.secondMember (Small.account 2) = some true ∧
      host.state.config.deposit = 5 ∧ 1 ≤ host.state.config.registrationTimeout ∧
      host.state.voters.get? (Small.account 2) = none := by
    rintro _ rfl
    decide +kernel
  have made : (Small.copied Small.secondMember).isSome = true := by decide +kernel
  obtain ⟨message, copied⟩ := Option.isSome_iff_exists.mp made
  have call : Small.replays.call = .register (some message) := by
    rw [← copied]
    rfl
  have merkleProof : message.merkleProof = Small.secondMember := by
    simp only [Small.copied, registerMessage, Option.bind_eq_bind, Option.bind_eq_some_iff]
      at copied
    obtain ⟨_, _, built⟩ := copied
    cases built
    rfl
  have accepted := (@keys_distinct_iff smallPrimitives (Small.account 0) Small.start
    Small.start_isSetup (Small.replayed.take 1)).2
  obtain ⟨host, is⟩ : ∃ host, run (step smallPrimitives (Small.account 0)) Small.start
    (Small.replayed.take 1) = host := ⟨_, rfl⟩
  obtain ⟨first, phase, verified, deposit, inTime, fresh⟩ := reached host is
  rw [is] at accepted ⊢
  rw [copied, Option.map_some, Option.map_eq_some_iff] at first
  obtain ⟨v, found, same⟩ := first
  obtain ⟨sameKey, sameZkp⟩ := Prod.mk.inj same
  obtain ⟨registers, w, located, key⟩ := accepted (Small.account 1) v (Small.account 2)
    Small.replays message found call sameKey.symm sameZkp.symm rfl phase
    (merkleProof ▸ verified) deposit inTime fresh
  exact ⟨message, registers, v, w, found, located, key⟩

theorem not_keys_distinct_replayed :
    IsSetup Small.start ∧
    ¬ (run (step smallPrimitives (Small.account 0)) Small.start
      Small.replayed).state.KeysDistinct := by
  have same : ∀ voters, (run (step smallPrimitives (Small.account 0)) Small.start
      Small.replayed).state.voters = voters →
      ((voters.get? (Small.account 1)).map Voter.votingKey).isSome = true ∧
      (voters.get? (Small.account 1)).map Voter.votingKey =
        (voters.get? (Small.account 2)).map Voter.votingKey := by
    rintro _ rfl
    decide +kernel
  obtain ⟨first, second⟩ := same _ rfl
  obtain ⟨key, first⟩ := Option.isSome_iff_exists.mp first
  refine ⟨Small.start_isSetup, fun distinct => ?_⟩
  have one := VotingState.keysDistinct_iff.mp distinct _ _ key first (second ▸ first)
  exact absurd one (by decide)

end SmartContracts.Voting
