import SmartContracts.Crypto.Residues
import SmartContracts.OffChain.Keys
import SmartContracts.OffChain.Proofs
import SmartContracts.Voting.Machine

namespace SmartContracts.Voting

open SmartContracts.Chain SmartContracts.Crypto SmartContracts.OffChain

/-! # The messages of an honest voter

What the off-chain program sends to each entrypoint, from a voter's secret, the
list of all voting keys, and the random scalars of the proofs.
-/

variable (crypto : Primitives)

def registerMessage (x w : crypto.Scalar) (merkleProof : MerkleProof) :
    Option RegisterMessage := do
  let gX := x • crypto.curve.generator
  let votingKeyZkp ← createSchnorrZkp crypto gX x w
  return { votingKey := crypto.curve.encodePoint gX, votingKeyZkp, merkleProof }

def commitMessage (keys : List crypto.Point) (x : crypto.Scalar) (choice : Bool) :
    Option CommitMessage := do
  let gY ← computeReconstructedKey crypto keys (x • crypto.curve.generator)
  return {
    reconstructedKey := crypto.curve.encodePoint gY
    commitment := commitToVote crypto x gY (choice.toNat • crypto.curve.generator) }

def voteMessage (keys : List crypto.Point) (x : crypto.Scalar) (choice : Bool)
    (w r d : crypto.Scalar) : Option VoteMessage := do
  let gX := x • crypto.curve.generator
  let gY ← computeReconstructedKey crypto keys gX
  let proof := if choice then createOneInTwoZkpYes crypto gX gY x w r d
    else createOneInTwoZkpNo crypto gX gY x w r d
  let voteZkp ← proof
  return {
    vote := crypto.curve.encodePoint (x • gY + choice.toNat • crypto.curve.generator)
    voteZkp }

/-! ## A small election

Two voters with the secrets 2 and 3, and a deposit of 5, on the small curve.
-/

namespace Small

def account (index : UInt8) : AccountAddress := .ofByte index

def leaf (index : UInt8) : Hash := smallPrimitives.sha256 (account index).bytes

def config : VoteConfig where
  merkleRoot := smallPrimitives.sha256 ((leaf 1).toList ++ (leaf 2).toList)
  merkleLeafCount := 2
  votingQuestion := "Proceed?"
  deposit := 5
  registrationTimeout := 10
  commitTimeout := 20
  voteTimeout := 30

def start : Host VotingState :=
  Host.deployed { config, votingPhase := .registration, votingResult := (-1, -1), voters := .empty }

theorem start_isSetup : IsSetup start :=
  ⟨0, some config, start.state, [], by rfl, rfl⟩

def keys : List smallPrimitives.Point :=
  [2, 3].map fun x : ℕ => (x : smallPrimitives.Scalar) • smallPrimitives.curve.generator

def send (index : UInt8) (slotTime : Timestamp) (amount : Amount) (call : Call) : Transaction :=
  { sender := .account (account index), slotTime, amount, call }

def registers (index : UInt8) (x w : ℕ) (merkleProof : MerkleProof) : Transaction :=
  send index 1 5 (.register (registerMessage smallPrimitives x w merkleProof))

def commits (index : UInt8) (x : ℕ) (choice : Bool) : Transaction :=
  send index 11 0 (.commit (commitMessage smallPrimitives keys x choice))

def votes (index : UInt8) (x : ℕ) (choice : Bool) (w r d : ℕ) : Transaction :=
  send index 21 0 (.vote (voteMessage smallPrimitives keys x choice w r d))

/-- Both voters register and commit, and the first of them votes no. -/
def firstVoted : List Transaction :=
  [registers 1 2 7 ⟨(leaf 2).toList, leaf 1, 0⟩, registers 2 3 9 ⟨(leaf 1).toList, leaf 2, 1⟩,
    commits 1 2 false, commits 2 3 true, votes 1 2 false 11 13 17]

def bothVoted : List Transaction := firstVoted ++ [votes 2 3 true 19 23 29]

/-- The second voter never votes and calls after the deadline. -/
def secondStalls : List Transaction := firstVoted ++ [send 2 31 0 .changePhase]

end Small

end SmartContracts.Voting
