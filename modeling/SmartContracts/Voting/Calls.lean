import SmartContracts.Voting.Contract

namespace SmartContracts.Voting

open SmartContracts.Chain SmartContracts.Crypto SmartContracts.Data SmartContracts.Semantics

/-! # What each entrypoint can do

One lemma per entrypoint: when it returns, under which conditions it did, and
the host it leaves.  Nothing after this module looks inside an entrypoint.
-/

namespace VotingState

variable (state : VotingState)

def registered (sender : AccountAddress) (message : RegisterMessage) : VotingState :=
  let voters := state.voters.insert sender { (default : Voter) with
    votingKey := message.votingKey
    votingKeyZkp := message.votingKeyZkp }
  { state with
    voters
    votingPhase :=
      if Int32.ofNat voters.entries.length = state.config.merkleLeafCount then .commit
      else state.votingPhase }

def committed (sender : AccountAddress) (voter : Voter) (message : CommitMessage) :
    VotingState :=
  let voters := state.voters.insert sender { voter with
    reconstructedKey := message.reconstructedKey
    commitment := message.commitment }
  { state with
    voters
    votingPhase :=
      if ∀ v ∈ voters.values, v.commitment ≠ [] ∧ v.reconstructedKey ≠ [] then .vote
      else state.votingPhase }

def voted (sender : AccountAddress) (voter : Voter) (message : VoteMessage) : VotingState :=
  let voters := state.voters.insert sender { voter with
    vote := message.vote
    voteZkp := message.voteZkp }
  { state with
    voters
    votingPhase := if ∀ v ∈ voters.values, v.vote ≠ [] then .result else state.votingPhase }

def withPhase (phase : VotingPhase) : VotingState := { state with votingPhase := phase }

/-- The extra deposit for the caller who finds a stalled vote. -/
def reward (duty : Voter → Bytes) (sender : AccountAddress) : Payments :=
  if sender ∉ state.stallingAccounts duty ∧
      state.voters.entries.length - (state.honestAccounts duty).length > 0 then
    [(sender, state.config.deposit)]
  else []

def refunds (duty : Voter → Bytes) (sender : AccountAddress) : Payments :=
  state.reward duty sender ++ Payments.equal (state.honestAccounts duty) state.config.deposit

/-- The phase a call of `change_phase` moves to, when it moves. -/
def advance (now : Timestamp) : Option VotingPhase :=
  match state.votingPhase with
  | .registration =>
      if now > state.config.registrationTimeout ∧
          (state.voters.values.filter (fun v => v.votingKey ≠ [])).length > 2 then some .commit
      else if now > state.config.registrationTimeout then some .abort
      else none
  | .commit =>
      if ∀ v ∈ state.voters.values, v.reconstructedKey ≠ [] ∧ v.commitment ≠ [] then some .vote
      else if now > state.config.commitTimeout then some .abort
      else none
  | .vote =>
      if ∀ v ∈ state.voters.values, v.vote ≠ [] then some .result
      else if now > state.config.voteTimeout then some .abort
      else none
  | .result => none
  | .abort => none

end VotingState

variable {crypto : Primitives} {ctx : ReceiveContext} {before after : Host VotingState}

private theorem ite_setState_ok {ε : Type} {condition : Prop} [Decidable condition]
    {next : VotingState} {returned : Unit} :
    (if condition then Receive.setState next else pure () : Receive ε VotingState Unit).run
        before = .ok returned after ↔
      after = if condition then { before with state := next } else before := by
  split
  · rw [Receive.setState_ok, eq_comm]
  · rw [pure_ok, eq_comm]
    exact ⟨fun both => both.2.symm, fun same => ⟨rfl, same.symm⟩⟩

private theorem ite_setState_then_ok {ε α : Type} {condition : Prop} [Decidable condition]
    {next : VotingState} {rest : Receive ε VotingState α} {result : α} :
    (if condition then Receive.setState next >>= fun _ => rest else rest).run before =
        .ok result after ↔
      rest.run (if condition then { before with state := next } else before) =
        .ok result after := by
  split
  · simp only [bind_ok, Receive.setState_ok]
    refine ⟨fun runs => ?_, fun returned => ⟨(), _, rfl, returned⟩⟩
    obtain ⟨_, _, stored, returned⟩ := runs
    exact stored ▸ returned
  · rfl

theorem setup_ok {slotTime : Timestamp} {parameter : Option VoteConfig} {state : VotingState} :
    setup slotTime parameter = .ok state ↔
      ∃ config, parameter = some config ∧ slotTime < config.registrationTimeout ∧
        config.registrationTimeout < config.commitTimeout ∧
        config.commitTimeout < config.voteTimeout ∧
        state = { config, votingPhase := .registration, votingResult := (-1, -1),
                  voters := .empty } := by
  cases parameter with
  | none => simp [setup]
  | some config =>
      have nonnegative : config.deposit ≥ 0 := UInt64.zero_le
      simp only [setup, gt_iff_lt, nonnegative, not_true_eq_false, if_false, Option.some.injEq]
      split
      · simp_all
      · split
        · simp_all
        · split
          · simp_all
          · simp_all [eq_comm]

theorem register_ok {deposit : Amount} {parameter : Option RegisterMessage} :
    (register crypto ctx deposit parameter).run before = .ok () after ↔
      ∃ message sender, parameter = some message ∧ ctx.sender = .account sender ∧
        before.state.votingPhase = .registration ∧
        verifyMerkleProof crypto before.state.config.merkleRoot
          before.state.config.merkleLeafCount message.merkleProof sender = some true ∧
        before.state.config.deposit = deposit ∧
        ctx.slotTime ≤ before.state.config.registrationTimeout ∧
        before.state.voters.get? sender = none ∧
        (∃ key, crypto.curve.decodePoint message.votingKey = some key ∧
          verifySchnorrZkp crypto key message.votingKeyZkp = some true) ∧
        after = { before with state := before.state.registered sender message } := by
  simp only [register, bind_ok, Receive.getParameter_ok, Receive.senderAccount_ok,
    Receive.state_ok, Receive.ensure_ok, Receive.unwrapAbort_ok, Receive.setState_ok,
    ite_setState_ok, Primitives.convertVecToPoint]
  constructor
  · intro returned
    obtain ⟨message, _, ⟨parsed, same0⟩, sender, _, ⟨account, same1⟩, state, _, ⟨current, same2⟩,
      _, _, ⟨phase, same3⟩, authorized, _, ⟨verified, same4⟩, _, _, ⟨allowed, same5⟩,
      _, _, ⟨paid, same6⟩, _, _, ⟨inTime, same7⟩, _, _, ⟨fresh, same8⟩, _, _, entered,
      _, _, ⟨valid, same9⟩, key, _, ⟨decoded, same10⟩, proved, _, ⟨checked, same11⟩,
      _, _, ⟨correct, same12⟩, _, _, stored, final⟩ := returned
    subst same0 same1 same2 current same3 same4 same5 same6 same7 same8 entered same9 same10
      same11 same12 stored
    refine ⟨message, sender, parsed, account, phase, allowed ▸ verified, paid, inTime, fresh,
      ⟨key, decoded, correct ▸ checked⟩, ?_⟩
    rw [final]
    simp only [VotingState.registered, OrderedMap.insert_insert]
    split <;> rfl
  · intro allowed
    obtain ⟨message, sender, parsed, account, phase, verified, paid, inTime, fresh,
      ⟨key, decoded, checked⟩, final⟩ := allowed
    refine ⟨message, _, ⟨parsed, rfl⟩, sender, _, ⟨account, rfl⟩, _, _, ⟨rfl, rfl⟩,
      (), _, ⟨phase, rfl⟩, true, _, ⟨verified, rfl⟩, (), _, ⟨rfl, rfl⟩, (), _, ⟨paid, rfl⟩,
      (), _, ⟨inTime, rfl⟩, (), _, ⟨fresh, rfl⟩, (), _, rfl, (), _, ⟨by simp [decoded], rfl⟩,
      key, _, ⟨decoded, rfl⟩, true, _, ⟨checked, rfl⟩, (), _, ⟨rfl, rfl⟩, (), _, rfl, ?_⟩
    rw [final]
    simp only [VotingState.registered, OrderedMap.insert_insert]
    split <;> rfl

theorem commit_ok {parameter : Option CommitMessage} :
    (commit ctx parameter).run before = .ok () after ↔
      ∃ message sender voter, parameter = some message ∧ ctx.sender = .account sender ∧
        message.commitment ≠ [] ∧ message.reconstructedKey ≠ [] ∧
        before.state.votingPhase = .commit ∧
        ctx.slotTime ≤ before.state.config.commitTimeout ∧
        before.state.voters.get? sender = some voter ∧
        after = { before with state := before.state.committed sender voter message } := by
  simp only [commit, bind_ok, Receive.getParameter_ok, Receive.senderAccount_ok,
    Receive.state_ok, Receive.ensure_ok]
  constructor
  · intro returned
    obtain ⟨message, _, ⟨parsed, same0⟩, sender, _, ⟨account, same1⟩, _, _, ⟨hashed, same2⟩,
      _, _, ⟨keyed, same3⟩, state, _, ⟨current, same4⟩, _, _, ⟨phase, same5⟩,
      _, _, ⟨present, same6⟩, _, _, ⟨inTime, same7⟩, body⟩ := returned
    subst same0 same1 same2 same3 same4 current same5 same6 same7
    obtain ⟨voter, found⟩ := Option.isSome_iff_exists.mp present
    simp only [found, bind_ok, Receive.setState_ok, ite_setState_ok] at body
    obtain ⟨_, _, stored, final⟩ := body
    subst stored
    refine ⟨message, sender, voter, parsed, account, hashed, keyed, phase, inTime, found, ?_⟩
    rw [final]
    simp only [VotingState.committed]
    split <;> rfl
  · intro allowed
    obtain ⟨message, sender, voter, parsed, account, hashed, keyed, phase, inTime, found, final⟩ :=
      allowed
    refine ⟨message, _, ⟨parsed, rfl⟩, sender, _, ⟨account, rfl⟩, (), _, ⟨hashed, rfl⟩,
      (), _, ⟨keyed, rfl⟩, _, _, ⟨rfl, rfl⟩, (), _, ⟨phase, rfl⟩, (), _, ⟨by simp [found], rfl⟩,
      (), _, ⟨inTime, rfl⟩, ?_⟩
    simp only [found, bind_ok, Receive.setState_ok, ite_setState_ok]
    refine ⟨(), _, rfl, ?_⟩
    rw [final]
    simp only [VotingState.committed]
    split <;> rfl

/-- The deposit goes back after everything else, so a vote returns only when the
contract can still pay it. -/
theorem vote_ok {parameter : Option VoteMessage} :
    (vote crypto ctx parameter).run before = .ok () after ↔
      ∃ message sender voter, parameter = some message ∧ ctx.sender = .account sender ∧
        before.state.votingPhase = .vote ∧ ctx.slotTime ≤ before.state.config.voteTimeout ∧
        before.state.voters.get? sender = some voter ∧ voter.vote = [] ∧
        (∃ gY, crypto.curve.decodePoint voter.reconstructedKey = some gY ∧
          verifyOneInTwoZkp crypto message.voteZkp gY = some true) ∧
        (∃ votePoint, crypto.curve.decodePoint message.vote = some votePoint ∧
          checkCommitment crypto votePoint voter.commitment = true) ∧
        before.CanPay [(sender, before.state.config.deposit)] ∧
        after = { before.paid [(sender, before.state.config.deposit)] with
          state := before.state.voted sender voter message } := by
  simp only [vote, bind_ok, Receive.getParameter_ok, Receive.senderAccount_ok,
    Receive.state_ok, Receive.ensure_ok]
  constructor
  · intro returned
    obtain ⟨message, _, ⟨parsed, same0⟩, sender, _, ⟨account, same1⟩, state, _, ⟨current, same2⟩,
      _, _, ⟨phase, same3⟩, _, _, ⟨present, same4⟩, _, _, ⟨inTime, same5⟩, body⟩ := returned
    subst same0 same1 current same2 same3 same4 same5
    obtain ⟨voter, found⟩ := Option.isSome_iff_exists.mp present
    simp only [found, bind_ok, Receive.ensure_ok, Receive.unwrapAbort_ok, Receive.setState_ok,
      ite_setState_then_ok, Receive.transfer_ok, Primitives.convertVecToPoint] at body
    obtain ⟨_, _, ⟨unvoted, same6⟩, gY, _, ⟨keyed, same7⟩, proved, _, ⟨checked, same8⟩,
      _, _, ⟨correct, same9⟩, votePoint, _, ⟨decoded, same10⟩, _, _, ⟨committed, same11⟩,
      _, _, stored, payable, final⟩ := body
    subst same6 same7 same8 same9 same10 same11 stored
    refine ⟨message, sender, voter, parsed, account, phase, inTime, found, unvoted,
      ⟨gY, keyed, correct ▸ checked⟩, ⟨votePoint, decoded, committed⟩, ?_, ?_⟩
    · split at payable <;> exact ⟨payable.exist, payable.covered⟩
    · rw [final]
      simp only [VotingState.voted]
      split <;> rfl
  · intro allowed
    obtain ⟨message, sender, voter, parsed, account, phase, inTime, found, unvoted,
      ⟨gY, keyed, checked⟩, ⟨votePoint, decoded, committed⟩, payable, final⟩ := allowed
    refine ⟨message, _, ⟨parsed, rfl⟩, sender, _, ⟨account, rfl⟩, _, _, ⟨rfl, rfl⟩,
      (), _, ⟨phase, rfl⟩, (), _, ⟨by simp [found], rfl⟩, (), _, ⟨inTime, rfl⟩, ?_⟩
    simp only [found, bind_ok, Receive.ensure_ok, Receive.unwrapAbort_ok, Receive.setState_ok,
      ite_setState_then_ok, Receive.transfer_ok, Primitives.convertVecToPoint]
    refine ⟨(), _, ⟨unvoted, rfl⟩, gY, _, ⟨keyed, rfl⟩, true, _, ⟨checked, rfl⟩, (), _,
      ⟨rfl, rfl⟩, votePoint, _, ⟨decoded, rfl⟩, (), _, ⟨committed, rfl⟩, (), _, rfl, ?_, ?_⟩
    · split <;> exact ⟨payable.exist, payable.covered⟩
    · rw [final]
      simp only [VotingState.voted]
      split <;> rfl

/-- The transfer at the end of a vote is the only one, and the only thing there to fail. -/
theorem vote_doTransfer {parameter : Option VoteMessage}
    (stopped : (vote crypto ctx parameter).run before = .error (.reject .doTransfer) after) :
    ∃ sender voter, ctx.sender = .account sender ∧ before.state.votingPhase = .vote ∧
      before.state.voters.get? sender = some voter ∧ voter.vote = [] ∧
      ¬ before.CanPay [(sender, before.state.config.deposit)] := by
  simp only [vote, bind_error, Receive.getParameter_error, Receive.getParameter_ok,
    Receive.senderAccount_error, Receive.senderAccount_ok, Receive.state_error, Receive.state_ok,
    Receive.ensure_error, Receive.ensure_ok, Failure.reject.injEq, reduceCtorEq, false_and,
    and_false, false_or] at stopped
  obtain ⟨message, _, ⟨_, same0⟩, sender, _, ⟨account, same1⟩, state, _, ⟨current, same2⟩,
      _, _, ⟨phase, same3⟩, _, _, ⟨present, same4⟩, _, _, ⟨_, same5⟩, body⟩ := stopped
  subst same0 same1 current same2 same3 same4 same5
  obtain ⟨voter, found⟩ := Option.isSome_iff_exists.mp present
  simp only [found, bind_error, Receive.ensure_error, Receive.ensure_ok, Receive.unwrapAbort_ok,
    Receive.unwrapAbort_error, Failure.reject.injEq, reduceCtorEq, false_and, and_false,
    false_or] at body
  obtain ⟨_, _, ⟨unvoted, same6⟩, gY, _, ⟨_, same7⟩, _, _, ⟨_, same8⟩,
      _, _, ⟨_, same9⟩, _, _, ⟨_, same10⟩, _, _, ⟨_, same11⟩, body⟩ := body
  subst same6 same7 same8 same9 same10 same11
  refine ⟨sender, voter, account, phase, found, unvoted, fun payable => ?_⟩
  have completes := Host.transferResult_ok_iff.mpr payable
  simp only [Receive.setState_error, Receive.setState_ok, false_or] at body
  obtain ⟨_, _, stored, body⟩ := body
  subst stored
  have short : ∃ reason, before.transferResult sender before.state.config.deposit =
      .error reason := by
    split at body
    · simp only [bind_error, Receive.setState_error, Receive.setState_ok, Receive.transfer_error,
        false_or] at body
      obtain ⟨_, _, stored, reason, failed, _⟩ := body
      subst stored
      exact ⟨reason, failed⟩
    · obtain ⟨reason, failed, _⟩ := Receive.transfer_error.mp body
      exact ⟨reason, failed⟩
  obtain ⟨reason, failed⟩ := short
  cases completes.symm.trans failed

theorem result_ok {energy : ℕ} {tally : Int32 × Int32} :
    (result crypto energy).run before = .ok tally after ↔
      before.state.votingPhase = .result ∧
      ∃ votes yesVotes,
        before.state.voters.values.mapM (fun v => crypto.convertVecToPoint v.vote) = some votes ∧
        bruteForceTally crypto energy votes = some yesVotes ∧
        tally = (yesVotes, Int32.ofNat votes.length - yesVotes) ∧
        after = { before with state := { before.state with votingResult := tally } } := by
  simp only [result, bind_ok, Receive.state_ok, Receive.ensure_ok, Receive.unwrapAbort_ok,
    Receive.setState_ok, pure_ok]
  constructor
  · intro returned
    obtain ⟨state, _, ⟨current, same0⟩, _, _, ⟨phase, same1⟩, votes, _, ⟨decoded, same2⟩,
      yesVotes, _, ⟨counted, same3⟩, _, _, stored, returned, final⟩ := returned
    subst current same0 same1 same2 same3 stored returned
    exact ⟨phase, votes, yesVotes, decoded, counted, rfl, final.symm⟩
  · intro allowed
    obtain ⟨phase, votes, yesVotes, decoded, counted, tallied, final⟩ := allowed
    subst tallied
    exact ⟨_, _, ⟨rfl, rfl⟩, (), _, ⟨phase, rfl⟩, votes, _, ⟨decoded, rfl⟩,
      yesVotes, _, ⟨counted, rfl⟩, (), _, rfl, rfl, final.symm⟩

/-- Aborting pays the reward and every refund, or does not happen. -/
theorem refundDeposits_ok {sender : AccountAddress} {returned : Unit} :
    (refundDeposits sender).run before = .ok returned after ↔
      ∃ duty, before.state.votingPhase.duty = some duty ∧
        before.CanPay (before.state.refunds duty sender) ∧
        after = before.paid (before.state.refunds duty sender) := by
  simp only [refundDeposits, bind_ok, Receive.state_ok, Receive.unwrapAbort_ok]
  constructor
  · intro returned
    obtain ⟨state, _, ⟨current, same0⟩, duty, _, ⟨phase, same1⟩, body⟩ := returned
    subst current same0 same1
    refine ⟨duty, phase, ?_⟩
    unfold VotingState.refunds VotingState.reward
    split at body
    · rename_i rewarded
      rw [if_pos rewarded]
      obtain ⟨first, rest⟩ := Receive.pay_ok.mp body
      obtain ⟨payable, paid⟩ := Receive.payAll_ok.mp rest
      exact ⟨Host.canPay_append.mpr ⟨first, payable⟩, by rw [paid, Host.paid_paid]⟩
    · rename_i unrewarded
      rw [if_neg unrewarded]
      exact Receive.payAll_ok.mp body
  · intro allowed
    obtain ⟨duty, phase, payable, paid⟩ := allowed
    refine ⟨_, _, ⟨rfl, rfl⟩, duty, _, ⟨phase, rfl⟩, ?_⟩
    unfold VotingState.refunds VotingState.reward at payable paid
    split
    · rename_i rewarded
      rw [if_pos rewarded] at payable paid
      obtain ⟨first, rest⟩ := Host.canPay_append.mp payable
      exact Receive.pay_ok.mpr ⟨first, Receive.payAll_ok.mpr ⟨rest, by rw [paid, Host.paid_paid]⟩⟩
    · rename_i unrewarded
      rw [if_neg unrewarded] at payable paid
      exact Receive.payAll_ok.mpr ⟨payable, paid⟩

/-- How a call of `change_phase` leaves the host: as it was, aborted with every
refund paid, or one phase on. -/
def Moved (sender : AccountAddress) (before after : Host VotingState) :
    Option VotingPhase → Prop
  | none => after = before
  | some .abort => ∃ duty, before.state.votingPhase.duty = some duty ∧
      before.CanPay (before.state.refunds duty sender) ∧
      after = { before.paid (before.state.refunds duty sender) with
        state := before.state.withPhase .abort }
  | some phase => after = { before with state := before.state.withPhase phase }

private theorem deadline_ok {sender : AccountAddress} {ahead late : Prop} [Decidable ahead]
    [Decidable late] {phase : VotingPhase} (alive : phase ≠ .abort) :
    (if ahead then Receive.setState { before.state with votingPhase := phase }
      else if late then
        Receive.mapError (fun _ => .transferRefund) (refundDeposits sender) >>= fun _ =>
          Receive.setState { before.state with votingPhase := .abort }
      else pure () : Receive ChangeError VotingState Unit).run before = .ok () after ↔
      Moved sender before after
        (if ahead then some phase else if late then some .abort else none) := by
  split
  · have moved : Moved sender before after (some phase) ↔
        after = { before with state := before.state.withPhase phase } := by
      cases phase with
      | abort => exact absurd rfl alive
      | registration => rfl
      | commit => rfl
      | vote => rfl
      | result => rfl
    rw [moved, Receive.setState_ok, eq_comm]
    rfl
  · split
    · simp only [bind_ok, Receive.mapError_ok, Receive.setState_ok, refundDeposits_ok]
      constructor
      · intro returned
        obtain ⟨_, _, ⟨duty, stage, payable, paid⟩, final⟩ := returned
        subst paid
        exact ⟨duty, stage, payable, final.symm⟩
      · intro allowed
        obtain ⟨duty, stage, payable, final⟩ := allowed
        exact ⟨(), _, ⟨duty, stage, payable, rfl⟩, final.symm⟩
    · exact ⟨fun returned => (pure_ok.mp returned).2.symm,
        fun same => pure_ok.mpr ⟨rfl, Eq.symm same⟩⟩

theorem changePhase_ok :
    (changePhase ctx).run before = .ok () after ↔
      ∃ sender, ctx.sender = .account sender ∧
        Moved sender before after (before.state.advance ctx.slotTime) := by
  have stays : ∀ sender, (pure () : Receive ChangeError VotingState Unit).run before =
      .ok () after ↔ Moved sender before after none := fun _ =>
    ⟨fun returned => (pure_ok.mp returned).2.symm, fun same => pure_ok.mpr ⟨rfl, Eq.symm same⟩⟩
  simp only [changePhase, bind_ok, Receive.senderAccount_ok, Receive.state_ok]
  constructor
  · intro returned
    obtain ⟨sender, _, ⟨account, same0⟩, state, _, ⟨current, same1⟩, body⟩ := returned
    subst same0 current same1
    refine ⟨sender, account, ?_⟩
    unfold VotingState.advance
    cases phase : before.state.votingPhase <;> simp only [phase] at body ⊢
    case registration => exact (deadline_ok (by decide)).mp body
    case commit => exact (deadline_ok (by decide)).mp body
    case vote => exact (deadline_ok (by decide)).mp body
    case result => exact (stays sender).mp body
    case abort => exact (stays sender).mp body
  · intro allowed
    obtain ⟨sender, account, moved⟩ := allowed
    refine ⟨sender, _, ⟨account, rfl⟩, _, _, ⟨rfl, rfl⟩, ?_⟩
    unfold VotingState.advance at moved
    cases phase : before.state.votingPhase <;> simp only [phase] at moved ⊢
    case registration => exact (deadline_ok (by decide)).mpr moved
    case commit => exact (deadline_ok (by decide)).mpr moved
    case vote => exact (deadline_ok (by decide)).mpr moved
    case result => exact (stays sender).mpr moved
    case abort => exact (stays sender).mpr moved

end SmartContracts.Voting
