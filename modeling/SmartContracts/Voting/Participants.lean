import SmartContracts.Voting.Authorization
import SmartContracts.Voting.Completeness
import SmartContracts.Voting.Messages
import SmartContracts.Voting.Tally

namespace SmartContracts.Voting

open SmartContracts.Algebra SmartContracts.Chain SmartContracts.Crypto SmartContracts.Data.HashTree
  SmartContracts.OffChain SmartContracts.RsMerkle

/-! # The participants of an election

What a voter sends in each of the three rounds, and that every check of the
contract lets it pass, as long as the points and scalars on the way can be
encoded.
-/

structure Participant (crypto : Primitives) where
  account : AccountAddress
  -- the secret voting key
  x : crypto.Scalar
  choice : Bool
  -- drawn for the proof of the voting key
  keyNonce : crypto.Scalar
  -- drawn for the proof of the vote
  w : crypto.Scalar
  r : crypto.Scalar
  d : crypto.Scalar

namespace Participant

variable {crypto : Primitives} (participant : Participant crypto)

def gX : crypto.Point := participant.x • crypto.curve.generator

def register (merkleTree : MerkleTree) : Option RegisterMessage := do
  let merkleProof ← createMerkleProof crypto participant.account merkleTree
  registerMessage crypto participant.x participant.keyNonce merkleProof

def commit (keys : List crypto.Point) : Option CommitMessage :=
  commitMessage crypto keys participant.x participant.choice

def vote (keys : List crypto.Point) : Option VoteMessage :=
  voteMessage crypto keys participant.x participant.choice participant.w participant.r
    participant.d

/-- No point or scalar that is sent is one whose encoding cannot be read back. -/
structure Decodable (merkleTree : MerkleTree) (keys : List crypto.Point) : Prop where
  register : ∀ message, participant.register merkleTree = some message →
    (crypto.curve.decodePoint message.votingKey).isSome ∧
    (message.votingKeyZkp.extractPrimitives crypto).isSome
  commit : ∀ message, participant.commit keys = some message →
    (crypto.curve.decodePoint message.reconstructedKey).isSome
  vote : ∀ message, participant.vote keys = some message →
    (crypto.curve.decodePoint message.vote).isSome ∧
    (message.voteZkp.extractScalars crypto).isSome ∧
    (message.voteZkp.extractPoints crypto).isSome

variable {participant} {accounts : List AccountAddress} {keys : List crypto.Point}
  {gY : crypto.Point}

theorem decodePoint_encodePoint {point : crypto.Point}
    (decodes : (crypto.curve.decodePoint (crypto.curve.encodePoint point)).isSome) :
    crypto.curve.decodePoint (crypto.curve.encodePoint point) = some point := by
  obtain ⟨found, decoded⟩ := Option.isSome_iff_exists.mp decodes
  obtain ⟨_, rfl⟩ := crypto.convertVecToPoint_encode.mp decoded
  exact decoded

theorem register_accepted (total : ∀ bytes, ∃ scalar, crypto.hashToScalar bytes = some scalar)
    (fits : accounts.length < 2 ^ 31) (listed : participant.account ∈ accounts) {root : Hash}
    (stored : (createMerkleTree crypto accounts).root = some root)
    (decodable : participant.Decodable (createMerkleTree crypto accounts) keys) :
    ∃ message, participant.register (createMerkleTree crypto accounts) = some message ∧
      verifyMerkleProof crypto root (Int32.ofNat accounts.length) message.merkleProof
        participant.account = some true ∧
      crypto.curve.decodePoint message.votingKey = some participant.gX ∧
      verifySchnorrZkp crypto participant.gX message.votingKeyZkp = some true := by
  obtain ⟨merkleProof, created, verified⟩ := createMerkleProof_accepted fits listed stored
  obtain ⟨gW, response, proved, accepted⟩ :=
    createSchnorrZkp_complete participant.x total participant.keyNonce
  have sent : participant.register (createMerkleTree crypto accounts) = some {
      votingKey := crypto.curve.encodePoint participant.gX
      votingKeyZkp := SchnorrProof.new crypto gW response
      merkleProof } := by
    simp only [register, created, registerMessage, proved, Option.bind_eq_bind,
      Option.bind_some, Option.pure_def, gX]
  obtain ⟨keyDecodes, proofDecodes⟩ := decodable.register _ sent
  obtain ⟨_, extracted⟩ := Option.isSome_iff_exists.mp proofDecodes
  exact ⟨_, sent, verified, decodePoint_encodePoint keyDecodes,
    accepted.mpr ((SchnorrProof.extract_new crypto).mp extracted).1⟩

theorem commit_sent
    (reconstructed : computeReconstructedKey crypto keys participant.gX = some gY) :
    participant.commit keys = some {
      reconstructedKey := crypto.curve.encodePoint gY
      commitment := commitToVote crypto participant.x gY
        (participant.choice.toNat • crypto.curve.generator) } := by
  simp only [commit, commitMessage, gX] at reconstructed ⊢
  rw [reconstructed]
  rfl

theorem commitToVote_ne_nil {x : crypto.Scalar} {gV : crypto.Point} :
    commitToVote crypto x gY gV ≠ [] := by
  intro empty
  have size := congrArg List.length empty
  simp [commitToVote] at size

/-- The two provers are one up to the statement they prove. -/
theorem vote_sent (total : ∀ bytes, ∃ scalar, crypto.hashToScalar bytes = some scalar)
    (reconstructed : computeReconstructedKey crypto keys participant.gX = some gY) :
    ∃ contents : Contents crypto, contents.Satisfies gY ∧
      participant.vote keys = some {
        vote := crypto.curve.encodePoint
          (participant.x • gY + participant.choice.toNat • crypto.curve.generator)
        voteZkp := contents.zkp } := by
  have proved : ∃ contents : Contents crypto, contents.Satisfies gY ∧
      (if participant.choice then
          createOneInTwoZkpYes crypto participant.gX gY participant.x participant.w
            participant.r participant.d
        else createOneInTwoZkpNo crypto participant.gX gY participant.x participant.w
            participant.r participant.d) = some contents.zkp := by
    cases participant.choice with
    | true =>
        obtain ⟨contents, created, _, _, satisfies⟩ := createOneInTwoZkpYes_complete
          participant.x gY total participant.w participant.r participant.d
        exact ⟨contents, satisfies, created⟩
    | false =>
        obtain ⟨contents, created, _, _, satisfies⟩ := createOneInTwoZkpNo_complete
          participant.x gY total participant.w participant.r participant.d
        exact ⟨contents, satisfies, created⟩
  obtain ⟨contents, satisfies, created⟩ := proved
  refine ⟨contents, satisfies, ?_⟩
  simp only [vote, voteMessage, gX] at reconstructed created ⊢
  simp only [reconstructed, created, Option.bind_eq_bind, Option.bind_some, Option.pure_def]

theorem vote_accepted (total : ∀ bytes, ∃ scalar, crypto.hashToScalar bytes = some scalar)
    (reconstructed : computeReconstructedKey crypto keys participant.gX = some gY)
    {merkleTree : MerkleTree} (decodable : participant.Decodable merkleTree keys) :
    ∃ message, participant.vote keys = some message ∧
      crypto.curve.decodePoint (crypto.curve.encodePoint gY) = some gY ∧
      verifyOneInTwoZkp crypto message.voteZkp gY = some true ∧
      crypto.curve.decodePoint message.vote =
        some (participant.x • gY + participant.choice.toNat • crypto.curve.generator) := by
  obtain ⟨contents, satisfies, sent⟩ := vote_sent total reconstructed
  have keyDecodes := decodable.commit _ (commit_sent reconstructed)
  obtain ⟨voteDecodes, scalarsDecode, pointsDecode⟩ := decodable.vote _ sent
  have encodable := Contents.encodable_of_extracted scalarsDecode pointsDecode
  exact ⟨_, sent, decodePoint_encodePoint keyDecodes,
    (Contents.accepted_iff satisfies).mpr encodable, decodePoint_encodePoint voteDecodes⟩

theorem checkCommitment_commitToVote {x : crypto.Scalar} {gV : crypto.Point} :
    checkCommitment crypto (x • gY + gV) (commitToVote crypto x gY gV) = true := by
  simp [checkCommitment, commitToVote]

end Participant

/-! ## All of them -/

variable {crypto : Primitives}

def accountsOf (participants : List (Participant crypto)) : List AccountAddress :=
  participants.map Participant.account

def keysOf (participants : List (Participant crypto)) : List crypto.Point :=
  participants.map Participant.gX

/-- The key with which a participant blinds. -/
def Participant.gY (participant : Participant crypto) (keys : List crypto.Point) :
    crypto.Point :=
  (computeReconstructedKey crypto keys participant.gX).getD 0

def Participant.ballot (keys : List crypto.Point) (participant : Participant crypto) :
    crypto.Point :=
  participant.x • participant.gY keys + participant.choice.toNat • crypto.curve.generator

/-! ## What the participants bring -/

namespace Participant

variable (participant : Participant crypto) (merkleTree : MerkleTree)
  (keys : List crypto.Point)

/-! The record of a participant after each round. -/

def registered : Option Voter := do
  let message ← participant.register merkleTree
  return { (default : Voter) with
    votingKey := message.votingKey
    votingKeyZkp := message.votingKeyZkp }

def committed : Option Voter := do
  let voter ← participant.registered merkleTree
  let message ← participant.commit keys
  return { voter with
    reconstructedKey := message.reconstructedKey
    commitment := message.commitment }

def voted : Option Voter := do
  let voter ← participant.committed merkleTree keys
  let message ← participant.vote keys
  return { voter with
    vote := message.vote
    voteZkp := message.voteZkp }

end Participant

/-- The contract was set up for these participants. -/
structure Organized (config : VoteConfig) (participants : List (Participant crypto)) : Prop where
  several : 2 ≤ participants.length
  bounded : participants.length < min crypto.curve.order (2 ^ 31)
  accounts : (accountsOf participants).Nodup
  keys : (keysOf participants).Nodup
  leafCount : config.merkleLeafCount = Int32.ofNat participants.length
  root : (createMerkleTree crypto (accountsOf participants)).root = some config.merkleRoot
  decodable : ∀ participant ∈ participants,
    participant.Decodable (createMerkleTree crypto (accountsOf participants))
      (keysOf participants)

namespace Organized

variable {config : VoteConfig} {participants : List (Participant crypto)}
  {participant : Participant crypto}

theorem length_accountsOf : (accountsOf participants).length = participants.length :=
  List.length_map _

theorem reconstructs (organized : Organized config participants)
    (member : participant ∈ participants) :
    computeReconstructedKey crypto (keysOf participants) participant.gX =
      some (participant.gY (keysOf participants)) := by
  obtain ⟨gY, found⟩ : ∃ gY,
      computeReconstructedKey crypto (keysOf participants) participant.gX = some gY :=
    computeReconstructedKey_of_mem organized.several organized.keys member
  rw [Participant.gY, found, Option.getD_some]

theorem registers (organized : Organized config participants)
    (total : ∀ bytes, ∃ scalar, crypto.hashToScalar bytes = some scalar)
    (member : participant ∈ participants) :
    let merkleTree := createMerkleTree crypto (accountsOf participants)
    ∃ message voter, participant.register merkleTree = some message ∧
      verifyMerkleProof crypto config.merkleRoot config.merkleLeafCount message.merkleProof
        participant.account = some true ∧
      crypto.curve.decodePoint message.votingKey = some participant.gX ∧
      verifySchnorrZkp crypto participant.gX message.votingKeyZkp = some true ∧
      participant.registered merkleTree = some voter ∧
      voter = { (default : Voter) with
        votingKey := message.votingKey
        votingKeyZkp := message.votingKeyZkp } := by
  intro merkleTree
  have few := organized.bounded
  have fits : (accountsOf participants).length < 2 ^ 31 := by
    rw [length_accountsOf]
    omega
  obtain ⟨message, sent, verified, decoded, proved⟩ := Participant.register_accepted total
    fits (List.mem_map_of_mem member) organized.root (organized.decodable participant member)
  rw [length_accountsOf, ← organized.leafCount] at verified
  refine ⟨message, _, sent, verified, decoded, proved, ?_, rfl⟩
  rw [Participant.registered, sent]
  rfl

theorem commits (organized : Organized config participants)
    (total : ∀ bytes, ∃ scalar, crypto.hashToScalar bytes = some scalar)
    (member : participant ∈ participants) :
    let merkleTree := createMerkleTree crypto (accountsOf participants)
    let keys := keysOf participants
    ∃ message voter committed, participant.commit keys = some message ∧
      message.commitment ≠ [] ∧ message.reconstructedKey ≠ [] ∧
      participant.registered merkleTree = some voter ∧
      participant.committed merkleTree keys = some committed ∧
      committed = { voter with
        reconstructedKey := message.reconstructedKey
        commitment := message.commitment } := by
  intro merkleTree keys
  obtain ⟨_, voter, _, _, _, _, registered, _⟩ := organized.registers total member
  have reconstructed := organized.reconstructs member
  have sent := Participant.commit_sent reconstructed
  have decodes := (organized.decodable participant member).commit _ sent
  refine ⟨_, voter, _, sent, Participant.commitToVote_ne_nil, fun empty => ?_, registered, ?_, rfl⟩
  · rw [empty, crypto.curve.decodePoint_nil] at decodes
    cases decodes
  · rw [Participant.committed, registered, sent]
    rfl

theorem votes (organized : Organized config participants)
    (total : ∀ bytes, ∃ scalar, crypto.hashToScalar bytes = some scalar)
    (member : participant ∈ participants) :
    let merkleTree := createMerkleTree crypto (accountsOf participants)
    let keys := keysOf participants
    ∃ message voter voted gY, participant.vote keys = some message ∧
      participant.committed merkleTree keys = some voter ∧ voter.vote = [] ∧
      crypto.curve.decodePoint voter.reconstructedKey = some gY ∧
      verifyOneInTwoZkp crypto message.voteZkp gY = some true ∧
      crypto.curve.decodePoint message.vote = some (participant.ballot keys) ∧
      checkCommitment crypto (participant.ballot keys) voter.commitment = true ∧
      participant.voted merkleTree keys = some voted ∧
      voted.Blinded crypto keys participant.x participant.choice ∧
      voted = { voter with vote := message.vote, voteZkp := message.voteZkp } := by
  intro merkleTree keys
  obtain ⟨_, voter, _, _, keyed, _, registered, blank⟩ := organized.registers total member
  have reconstructed := organized.reconstructs member
  have sent := Participant.commit_sent reconstructed
  obtain ⟨message, cast, blinds, proved, decoded⟩ := Participant.vote_accepted total reconstructed
    (organized.decodable participant member)
  have committed : participant.committed merkleTree keys = some { voter with
      reconstructedKey := crypto.curve.encodePoint (participant.gY keys)
      commitment := commitToVote crypto participant.x (participant.gY keys)
        (participant.choice.toNat • crypto.curve.generator) } := by
    rw [Participant.committed, registered, sent]
    rfl
  refine ⟨message, _, _, participant.gY keys, cast, committed, ?_, blinds, proved, decoded,
    Participant.checkCommitment_commitToVote, ?_, ?_, rfl⟩
  · rw [blank]
    rfl
  · rw [Participant.voted, committed, cast]
    rfl
  · rw [blank]
    exact ⟨keyed, _, reconstructed, blinds, decoded⟩

end Organized

end SmartContracts.Voting
