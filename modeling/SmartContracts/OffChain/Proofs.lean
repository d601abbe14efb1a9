import SmartContracts.Crypto.Util

namespace SmartContracts.OffChain

open SmartContracts.Chain SmartContracts.Crypto

/-! # The prover's side

The functions by which a voter makes the proofs and the commitment that the
contract checks.  The scalars the code draws at random are arguments here;
`none` is a trap of the hash.
-/

variable (crypto : Primitives)

/-- Create a discrete log Schnorr ZKP (g^w, r = w - xz) -/
def createSchnorrZkp (gX : crypto.Point) (x w : crypto.Scalar) : Option SchnorrProof := do
  let gW := w • crypto.curve.generator
  let valueToHash := crypto.curve.generator + gW + gX
  let z ← crypto.hashToScalar (crypto.curve.encodePoint valueToHash)
  let r := w - x * z
  return SchnorrProof.new crypto gW r

/-- Create one-in-two ZKP "yes" instance -/
def createOneInTwoZkpYes (gX gY : crypto.Point) (x w r1 d1 : crypto.Scalar) :
    Option OneInTwoZKP := do
  let y := x • gY + crypto.curve.generator
  let a1 := r1 • crypto.curve.generator + d1 • gX
  let b1 := r1 • gY + d1 • y
  let a2 := w • crypto.curve.generator
  let b2 := w • gY
  let valueToHash := gX + y + a1 + b1 + a2 + b2
  let c ← crypto.hashToScalar (crypto.curve.encodePoint valueToHash)
  let d2 := c - d1
  let r2 := w - x * d2
  return OneInTwoZKP.new crypto r1 r2 d1 d2 gX y a1 b1 a2 b2

/-- Create one-in-two ZKP "no" instance -/
def createOneInTwoZkpNo (gX gY : crypto.Point) (x w r2 d2 : crypto.Scalar) :
    Option OneInTwoZKP := do
  let y := x • gY
  let a1 := w • crypto.curve.generator
  let b1 := w • gY
  let a2 := r2 • crypto.curve.generator + d2 • gX
  let b2 := r2 • gY + d2 • (y - crypto.curve.generator)
  let valueToHash := gX + y + a1 + b1 + a2 + b2
  let c ← crypto.hashToScalar (crypto.curve.encodePoint valueToHash)
  let d1 := c - d2
  let r1 := w - x * d1
  return OneInTwoZKP.new crypto r1 r2 d1 d2 gX y a1 b1 a2 b2

/-- Create a commitment to a vote: H(g^xy g^v) -/
def commitToVote (x : crypto.Scalar) (gY gV : crypto.Point) : Bytes :=
  (crypto.sha256 (crypto.curve.encodePoint (x • gY + gV))).toList

end SmartContracts.OffChain
