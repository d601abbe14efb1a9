import SmartContracts.Crypto.Util
import SmartContracts.RsMerkle.Proof

namespace SmartContracts.Voting

open SmartContracts.Algebra SmartContracts.Chain SmartContracts.Crypto

/-! # The cryptography of the voting contract

Each function of `crypto.rs`; `none` is a trap.  The brute-force loop has no
bound of its own, so it runs on the energy of the call and traps without it.
-/

section Checks

variable (crypto : Primitives)

/-- Check Schnorr ZKP: g^w = g^r * g^xz -/
def verifySchnorrZkp (gX : crypto.Point) (schnorr : SchnorrProof) : Option Bool := do
  let (gW, r) ← schnorr.extractPrimitives crypto
  let valueToHash := crypto.curve.generator + gW + gX
  let z ← crypto.hashToScalar (crypto.curve.encodePoint valueToHash)
  let gR := r • crypto.curve.generator
  let gXZ := z • gX
  return gXZ + gR = gW

/-- Check one-in-two ZKP: check v = 1 or v = 0 without knowing which -/
def verifyOneInTwoZkp (zkp : OneInTwoZKP) (gY : crypto.Point) : Option Bool := do
  let (r1, r2, d1, d2) ← zkp.extractScalars crypto
  let (x, y, a1, b1, a2, b2) ← zkp.extractPoints crypto
  -- the sum of the six points is hashed, not the tuple
  let valueToHash := x + y + a1 + b1 + a2 + b2
  let c ← crypto.hashToScalar (crypto.curve.encodePoint valueToHash)
  if c ≠ d1 + d2 then return false
  else if a1 ≠ r1 • crypto.curve.generator + d1 • x then return false
  else if b1 ≠ r1 • gY + d1 • y then return false
  else if a2 ≠ r2 • crypto.curve.generator + d2 • x then return false
  else if b2 ≠ r2 • gY + d2 • (y - crypto.curve.generator) then return false
  else return true

/-- Check commitment matches actual vote -/
def checkCommitment (vote : crypto.Point) (commitment : Bytes) : Bool :=
  (crypto.sha256 (crypto.curve.encodePoint vote)).toList = commitment

def bruteForceLoop (tally pg : crypto.Point) : ℕ → crypto.Point → Int32 → Option Int32
  | energy, currentG, yesVotes =>
      if currentG = tally then some yesVotes
      else match energy with
        | 0 => none
        | energy + 1 => bruteForceLoop tally pg energy (currentG + pg) (yesVotes + 1)

/-- Brute force and tally yes votes on-chain -/
def bruteForceTally (energy : ℕ) : List crypto.Point → Option Int32
  | [] => none
  | first :: rest =>
      bruteForceLoop crypto (rest.foldl (· + ·) first) crypto.curve.generator energy 0 0

/-- Checks merkle proof-of-membership and that the hash of the sender matches
the leaf that is proved -/
def verifyMerkleProof (merkleRoot : Hash) (merkleLeafCount : Int32)
    (merkleProof : MerkleProof) (sender : AccountAddress) : Option Bool := do
  let proof ← (RsMerkle.MerkleProof.fromBytes merkleProof.proof).toOption
  let verified ← proof.verify crypto.sha256 merkleRoot [i32AsUsize merkleProof.index]
    [merkleProof.leaf] (i32AsUsize merkleLeafCount)
  return verified && crypto.sha256 sender.bytes = merkleProof.leaf
where
  i32AsUsize (value : Int32) : ℕ := value.toUInt32.toNat

end Checks

variable {crypto : Primitives}

/-- What an accepted one-in-two proof says about its points and scalars. -/
structure OneInTwo (crypto : Primitives) (gY : crypto.Point) (r1 r2 d1 d2 : crypto.Scalar)
    (x y a1 b1 a2 b2 : crypto.Point) : Prop where
  challenge : crypto.hashToScalar (crypto.curve.encodePoint (x + y + a1 + b1 + a2 + b2)) =
    some (d1 + d2)
  a1 : a1 = r1 • crypto.curve.generator + d1 • x
  b1 : b1 = r1 • gY + d1 • y
  a2 : a2 = r2 • crypto.curve.generator + d2 • x
  b2 : b2 = r2 • gY + d2 • (y - crypto.curve.generator)

theorem verifyOneInTwoZkp_accepts {zkp : OneInTwoZKP} {gY : crypto.Point} :
    verifyOneInTwoZkp crypto zkp gY = some true ↔
      ∃ r1 r2 d1 d2 x y a1 b1 a2 b2,
        zkp.extractScalars crypto = some (r1, r2, d1, d2) ∧
        zkp.extractPoints crypto = some (x, y, a1, b1, a2, b2) ∧
        OneInTwo crypto gY r1 r2 d1 d2 x y a1 b1 a2 b2 := by
  simp only [verifyOneInTwoZkp, Option.bind_eq_bind, Option.bind_eq_some_iff]
  constructor
  · intro verified
    obtain ⟨⟨r1, r2, d1, d2⟩, scalars, ⟨x, y, a1, b1, a2, b2⟩, points, c, hashed, checked⟩ :=
      verified
    refine ⟨r1, r2, d1, d2, x, y, a1, b1, a2, b2, scalars, points, ?_⟩
    by_cases challenge : c = d1 + d2
    · by_cases first : a1 = r1 • crypto.curve.generator + d1 • x
      · by_cases second : b1 = r1 • gY + d1 • y
        · by_cases third : a2 = r2 • crypto.curve.generator + d2 • x
          · by_cases fourth : b2 = r2 • gY + d2 • (y - crypto.curve.generator)
            · exact ⟨challenge ▸ hashed, first, second, third, fourth⟩
            · simp [challenge, first, second, third, fourth] at checked
          · simp [challenge, first, second, third] at checked
        · simp [challenge, first, second] at checked
      · simp [challenge, first] at checked
    · simp [challenge] at checked
  · intro satisfied
    obtain ⟨r1, r2, d1, d2, x, y, a1, b1, a2, b2, scalars, points, accepted⟩ := satisfied
    refine ⟨_, scalars, _, points, d1 + d2, accepted.challenge, ?_⟩
    simp only [ne_eq, not_true_eq_false, if_false, accepted.a1.symm, accepted.b1.symm,
      accepted.a2.symm, accepted.b2.symm]
    rfl

/-- The loop counts the steps to the tally in wrapping 32-bit arithmetic. -/
theorem bruteForceLoop_eq {tally pg currentG : crypto.Point} {energy : ℕ} {yesVotes : Int32} :
    bruteForceLoop crypto tally pg energy currentG yesVotes =
      (stepsTo pg tally energy currentG).map fun steps => yesVotes + Int32.ofNat steps := by
  induction energy generalizing currentG yesVotes with
  | zero =>
      rw [bruteForceLoop, stepsTo]
      split <;> simp
  | succ energy ih =>
      rw [bruteForceLoop, stepsTo]
      split
      · simp
      · rw [ih, Option.map_map]
        congr 1
        funext steps
        simp only [Function.comp_apply]
        rw [Int32.ofNat_add, Int32.add_comm (Int32.ofNat steps), Int32.add_assoc]
        rfl

theorem bruteForceTally_eq {votes : List crypto.Point} (nonempty : votes ≠ []) {energy : ℕ} :
    bruteForceTally crypto energy votes =
      (stepsTo crypto.curve.generator votes.sum energy 0).map Int32.ofNat := by
  obtain ⟨first, rest, rfl⟩ := List.exists_cons_of_ne_nil nonempty
  have tally : rest.foldl (· + ·) first = (first :: rest).sum := by
    rw [List.sum_eq_foldl, List.foldl_cons, zero_add]
  rw [bruteForceTally, tally, bruteForceLoop_eq]
  simp

end SmartContracts.Voting
