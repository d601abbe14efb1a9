import SmartContracts.Voting.Binding
import SmartContracts.Voting.Phases
import SmartContracts.Voting.Tally

namespace SmartContracts.Voting

open SmartContracts.Algebra SmartContracts.Chain SmartContracts.Crypto SmartContracts.Data
  SmartContracts.OffChain SmartContracts.Semantics

/-! # What the result entrypoint returns

A stored vote is a point, and that is all the contract knows of it.  The loop of
`result` runs to the discrete logarithm of the sum of these points, which is
the number of yes votes when they are zeros and ones with blinding that cancels.
-/

variable {crypto : Primitives} {owner : AccountAddress}

theorem run_decodes {start : Host VotingState} (begins : IsSetup start)
    (txs : List Transaction) :
    ∀ v ∈ (run (step crypto owner) start txs).state.voters.values, v.vote ≠ [] →
      ∃ votePoint, crypto.convertVecToPoint v.vote = some votePoint := by
  refine @run_invariant _ _ (step crypto owner) (fun host =>
    ∀ v ∈ host.state.voters.values, v.vote ≠ [] →
      ∃ votePoint, crypto.convertVecToPoint v.vote = some votePoint) start ?_ ?_ txs
  · exact begins.forall_voters
  · intro before tx decodes
    exact step_ballots decodes (fun _ _ => id) fun _ _ _ _ votePoint casts =>
      ⟨votePoint, casts.decoded⟩

/-- The stored votes of an election that has reached its result phase. -/
theorem run_votes {start : Host VotingState} (begins : IsSetup start) (txs : List Transaction)
    (phase : (run (step crypto owner) start txs).state.votingPhase = .result) :
    let values := (run (step crypto owner) start txs).state.voters.values
    ∃ votes : List crypto.Point,
      values.mapM (fun v => crypto.convertVecToPoint v.vote) = some votes ∧
      votes.length = values.length ∧ votes ≠ [] := by
  intro values
  obtain ⟨someone, complete⟩ := (run_consistent begins txs).tallying phase
  obtain ⟨votes, decoded⟩ := exists_mapM fun v member =>
    run_decodes begins txs v member (complete v member).2.2
  have size := length_of_mapM decoded
  refine ⟨votes, decoded, size, fun empty => someone ?_⟩
  rwa [empty, List.length_nil, eq_comm, List.length_eq_zero_iff] at size

/-- The tally is the discrete logarithm of the sum of the stored votes. -/
theorem result_log {host : Host VotingState} (phase : host.state.votingPhase = .result)
    {votes : List crypto.Point}
    (decoded : host.state.voters.values.mapM (fun v => crypto.convertVecToPoint v.vote) =
      some votes) (nonempty : votes ≠ []) {k : ℕ} (bounded : k < crypto.curve.order)
    (log : k • crypto.curve.generator = votes.sum) {energy : ℕ} {tally : Int32 × Int32}
    {after : Host VotingState} :
    (result crypto energy).run host = .ok tally after ↔
      k ≤ energy ∧ tally = (Int32.ofNat k, Int32.ofNat votes.length - Int32.ofNat k) ∧
      after = { host with state := { host.state with votingResult := tally } } := by
  rw [result_ok]
  have counts := bruteForceTally_log nonempty bounded log energy
  constructor
  · intro returned
    obtain ⟨_, votes', yesVotes, decoded', counted, tallied, final⟩ := returned
    obtain rfl : votes = votes' := Option.some.inj (decoded.symm.trans decoded')
    rw [counts] at counted
    split at counted
    · rename_i enough
      cases counted
      exact ⟨enough, tallied, final⟩
    · cases counted
  · intro expected
    obtain ⟨enough, tallied, final⟩ := expected
    exact ⟨phase, votes, Int32.ofNat k, decoded, by rw [counts, if_pos enough], tallied, final⟩

/-- The counts fit in the words that the tally is kept in. -/
theorem toInt_tally {k n : ℕ} (within : k ≤ n) (few : n < 2 ^ 31) :
    (Int32.ofNat k).toInt = k ∧ (Int32.ofNat n - Int32.ofNat k).toInt = n - k := by
  refine ⟨Int32.toInt_ofNat_of_lt (by omega), ?_⟩
  rw [← Int32.ofNat_sub _ _ within, Int32.toInt_ofNat_of_lt (by omega)]
  omega

/-- The loop stops after as many turns as the logarithm of the sum, and with
cancelling ballots that is a number of voters. -/
theorem result_of_run {start : Host VotingState} (begins : IsSetup start)
    (txs : List Transaction) (large : 2 ^ 31 < crypto.curve.order) :
    let host := run (step crypto owner) start txs
    let n := host.state.voters.values.length
    host.state.votingPhase = .result → n < 2 ^ 31 →
    ∃ (votes : List crypto.Point) (k : ℕ),
      host.state.voters.values.mapM (fun v => crypto.curve.decodePoint v.vote) = some votes ∧
      k < crypto.curve.order ∧ k • crypto.curve.generator = votes.sum ∧
      (∀ energy tally after, (result crypto energy).run host = .ok tally after ↔
        k ≤ energy ∧ tally = (Int32.ofNat k, Int32.ofNat n - Int32.ofNat k) ∧
        after = { host with state := { host.state with votingResult := tally } }) ∧
      ∀ choices, Cancelling crypto choices votes →
        k ≤ n ∧ k = (choices.map Bool.toNat).sum ∧ (Int32.ofNat k).toInt = k ∧
        (Int32.ofNat n - Int32.ofNat k).toInt = n - k := by
  intro host n phase few
  have prime := crypto.curve.prime
  obtain ⟨votes, decoded, size, nonempty⟩ := run_votes begins txs phase
  obtain ⟨k, bounded, log⟩ := crypto.curve.generates.exists_log votes.sum
  refine ⟨votes, k, decoded, bounded, log, fun energy tally after => ?_, ?_⟩
  · rw [result_log phase decoded nonempty bounded log, size]
  · intro choices cancelling
    have within := yesVotes_le choices
    have everyone : choices.length = n := cancelling.length.symm.trans size
    obtain rfl : k = (choices.map Bool.toNat).sum :=
      (crypto.curve.generates.nsmul_inj bounded (by omega)).mp (log.trans cancelling.sum.symm)
    exact ⟨by omega, rfl, toInt_tally (by omega) few⟩

/-- Where the stored keys and votes are those of the off-chain program, in whatever
order it takes the keys, the result is the tally of the choices, after as many turns
as there are yes votes. -/
theorem result_of_blinded {start : Host VotingState} (begins : IsSetup start)
    (txs : List Transaction) {α : Type*} {members : List α} {record : α → Voter}
    {secret : α → crypto.Scalar} {choice : α → Bool} (several : 2 ≤ members.length)
    (bounded : members.length < min crypto.curve.order (2 ^ 31))
    (distinct : (members.map (secret · • crypto.curve.generator)).Nodup)
    (blinded : ∀ member ∈ members, (record member).Blinded crypto
      (members.map (secret · • crypto.curve.generator)) (secret member) (choice member)) :
    let host := run (step crypto owner) start txs
    let yesVotes := ((members.map choice).map Bool.toNat).sum
    host.state.votingPhase = .result → (members.map record).Perm host.state.voters.values →
    (∀ energy, (∃ tally after, (result crypto energy).run host = .ok tally after) ↔
      yesVotes ≤ energy) ∧
    ∀ energy tally after, (result crypto energy).run host = .ok tally after →
      tally.1.toInt = yesVotes ∧ tally.2.toInt = members.length - yesVotes := by
  intro host yesVotes phase everyone
  obtain ⟨votes, decoded, size, nonempty⟩ := run_votes begins txs phase
  obtain ⟨ballots, cast, cancelling⟩ := cancelling_of_blinded several distinct blinded
  have log : yesVotes • crypto.curve.generator = votes.sum :=
    cancelling.sum.trans (perm_of_mapM everyone cast decoded).sum_eq
  have within := yesVotes_le (members.map choice)
  rw [List.length_map] at within
  have voters : votes.length = members.length := by
    rw [size, ← everyone.length_eq, List.length_map]
  have returns := fun energy tally after => @result_log crypto host phase votes decoded nonempty
    yesVotes (by omega) log energy tally after
  refine ⟨fun energy => ⟨?_, fun enough => ?_⟩, fun energy tally after returned => ?_⟩
  · intro returned
    obtain ⟨tally, after, returned⟩ := returned
    exact ((returns energy tally after).mp returned).1
  · exact ⟨_, _, (returns energy _ _).mpr ⟨enough, rfl, rfl⟩⟩
  · obtain ⟨_, rfl, _⟩ := (returns energy tally after).mp returned
    rw [voters]
    exact toInt_tally within (by omega)

/-! ## An election on a wide curve

Two voters with the secrets 2 and 3 on a curve with more than 2^31 scalars.
-/

instance prime_3221225473 : Fact (Nat.Prime 3221225473) := ⟨by
  refine lucas_primality 3221225473 5 (by reduce_mod_char) ?_
  intro q prime divides
  have factors : 3221225473 - 1 = 2 ^ 30 * 3 := by norm_num
  rw [factors, prime.dvd_mul] at divides
  rcases divides with two | three
  · obtain rfl := (Nat.prime_dvd_prime_iff_eq prime Nat.prime_two).mp (prime.dvd_of_dvd_pow two)
    norm_num
    reduce_mod_char
    decide
  · obtain rfl := (Nat.prime_dvd_prime_iff_eq prime Nat.prime_three).mp three
    norm_num
    reduce_mod_char
    decide⟩

def widePrimitives : Primitives where
  curve := residues 3221225473 (by norm_num)
  sha256 := checksum 3221225473

namespace Wide

def leaf (index : UInt8) : Hash := widePrimitives.sha256 (Small.account index).bytes

def config : VoteConfig :=
  { Small.config with merkleRoot := widePrimitives.sha256 ((leaf 1).toList ++ (leaf 2).toList) }

def start : Host VotingState :=
  Host.deployed { config, votingPhase := .registration, votingResult := (-1, -1), voters := .empty }

theorem start_isSetup : IsSetup start :=
  ⟨0, some config, start.state, [], by rfl, rfl⟩

def registers (index : UInt8) (x w : ℕ) (merkleProof : MerkleProof) : Transaction :=
  Small.send index 1 5 (.register (registerMessage widePrimitives x w merkleProof))

def commits (index : UInt8) (x : ℕ) (gY : widePrimitives.Point) (choice : Bool) : Transaction :=
  Small.send index 11 0 (.commit (some {
    reconstructedKey := widePrimitives.curve.encodePoint gY
    commitment := commitToVote widePrimitives x gY
      (choice.toNat • widePrimitives.curve.generator) }))

def votes (index : UInt8) (x : ℕ) (gY : widePrimitives.Point) (choice : Bool) (w r d : ℕ) :
    Transaction :=
  let gX := (x : widePrimitives.Scalar) • widePrimitives.curve.generator
  let vote := (x : widePrimitives.Scalar) • gY + choice.toNat • widePrimitives.curve.generator
  let proof := if choice then createOneInTwoZkpYes widePrimitives gX gY x w r d
    else createOneInTwoZkpNo widePrimitives gX gY x w r d
  Small.send index 21 0 (.vote (proof.map fun voteZkp =>
    { vote := widePrimitives.curve.encodePoint vote, voteZkp }))

/-- The first voter votes no, blinded with the multiple `y` of the generator,
and the second votes yes, blinded as it should be. -/
def election (y : widePrimitives.Scalar) : List Transaction :=
  let gY1 := y • widePrimitives.curve.generator
  let gY2 := ((2 : ℕ) : widePrimitives.Scalar) • widePrimitives.curve.generator
  [registers 1 2 7 ⟨(leaf 2).toList, leaf 1, 0⟩, registers 2 3 9 ⟨(leaf 1).toList, leaf 2, 1⟩,
    commits 1 2 gY1 false, commits 2 3 gY2 true,
    votes 1 2 gY1 false 11 13 17, votes 2 3 gY2 true 19 23 29]

end Wide

theorem result_of_run_wide :
    ∃ k : ℕ, k ≤ 2 ∧ ∀ energy ≥ 2, ∃ after, (result widePrimitives energy).run
      (run (step widePrimitives (Small.account 0)) Wide.start (Wide.election (-3))) =
        .ok (Int32.ofNat k, Int32.ofNat 2 - Int32.ofNat k) after := by
  have outcome :
      let host := run (step widePrimitives (Small.account 0)) Wide.start (Wide.election (-3))
      host.state.votingPhase = .result ∧ host.state.voters.values.length = 2 ∧
      host.state.voters.values.mapM (fun v => widePrimitives.curve.decodePoint v.vote) =
        some (List.zipWith (· + ·)
          [(-6 : widePrimitives.Scalar) • widePrimitives.curve.generator,
            (6 : widePrimitives.Scalar) • widePrimitives.curve.generator]
          ([false, true].map (·.toNat • widePrimitives.curve.generator))) := by
    decide +kernel
  have blinding : [(-6 : widePrimitives.Scalar) • widePrimitives.curve.generator,
      (6 : widePrimitives.Scalar) • widePrimitives.curve.generator].sum = 0 := by
    decide
  have tallies := @result_of_run widePrimitives (Small.account 0) Wide.start Wide.start_isSetup
    (Wide.election (-3)) (by decide)
  revert outcome tallies
  generalize run (step widePrimitives (Small.account 0)) Wide.start (Wide.election (-3)) = host
  intro outcome tallies
  obtain ⟨phase, two, cast⟩ := outcome
  simp only [two] at tallies
  obtain ⟨votes, k, decoded, _, _, returns, counted⟩ := tallies phase (by decide)
  obtain ⟨few, _⟩ := counted [false, true]
    ⟨_, rfl, blinding, Option.some.inj (decoded.symm.trans cast)⟩
  exact ⟨k, few, fun energy enough =>
    ⟨_, (returns energy _ _).mpr ⟨few.trans enough, rfl, rfl⟩⟩⟩

/-- With another reconstructed key the loop takes five turns for two voters. -/
theorem result_out_of_range :
    2 ^ 31 < widePrimitives.curve.order ∧ IsSetup Wide.start ∧
    let host := run (step widePrimitives (Small.account 0)) Wide.start (Wide.election (-1))
    host.state.votingPhase = .result ∧ host.state.voters.values.length = 2 ∧
    (∀ tally after, (result widePrimitives 2).run host ≠ .ok tally after) ∧
    ∃ after, (result widePrimitives 5).run host = .ok (5, -3) after := by
  have outcome :
      let host := run (step widePrimitives (Small.account 0)) Wide.start (Wide.election (-1))
      host.state.votingPhase = .result ∧ host.state.voters.values.length = 2 ∧
      host.state.voters.values.mapM (fun v => widePrimitives.convertVecToPoint v.vote) =
        some [(-2 : widePrimitives.Scalar) • widePrimitives.curve.generator,
          (7 : widePrimitives.Scalar) • widePrimitives.curve.generator] := by
    decide +kernel
  have log : 5 • widePrimitives.curve.generator =
      [(-2 : widePrimitives.Scalar) • widePrimitives.curve.generator,
        (7 : widePrimitives.Scalar) • widePrimitives.curve.generator].sum := by
    decide
  refine ⟨by decide, Wide.start_isSetup, ?_⟩
  revert outcome
  generalize run (step widePrimitives (Small.account 0)) Wide.start (Wide.election (-1)) = host
  intro outcome
  obtain ⟨phase, two, decoded⟩ := outcome
  have returns := fun energy tally after => @result_log widePrimitives host phase _ decoded
    (by simp) 5 (by decide) log energy tally after
  refine ⟨phase, two, fun tally after returned => ?_, _,
    (returns 5 _ _).mpr ⟨le_rfl, by decide, rfl⟩⟩
  exact absurd ((returns 2 tally after).mp returned).1 (by decide)

end SmartContracts.Voting
