import SmartContracts.OffChain.Proofs
import SmartContracts.Voting.OneInTwo

namespace SmartContracts.Voting

open SmartContracts.Algebra SmartContracts.Chain SmartContracts.Crypto SmartContracts.OffChain

/-! # Honest proofs are accepted

A prover answers the challenge for the vote it knows and makes up the other one,
so that both pairs of equations hold.  The contract accepts what it is sent,
unless an encoding on the way stands for no scalar or no point.
-/

/-- The answer `w - x d` to a challenge, for any base. -/
theorem answered {R G : Type*} [CommRing R] [AddCommGroup G] [Module R G] (w x d : R) (base : G) :
    w • base = (w - x * d) • base + d • x • base := by
  module

variable (crypto : Primitives)

/-- What a one-in-two proof is made of before it is encoded. -/
structure Contents where
  r1 : crypto.Scalar
  r2 : crypto.Scalar
  d1 : crypto.Scalar
  d2 : crypto.Scalar
  x : crypto.Point
  y : crypto.Point
  a1 : crypto.Point
  b1 : crypto.Point
  a2 : crypto.Point
  b2 : crypto.Point

variable {crypto}

namespace Contents

variable (contents : Contents crypto)

def zkp : OneInTwoZKP :=
  OneInTwoZKP.new crypto contents.r1 contents.r2 contents.d1 contents.d2 contents.x contents.y
    contents.a1 contents.b1 contents.a2 contents.b2

/-- No scalar is zero and no point is the neutral element. -/
structure Encodable : Prop where
  scalars : contents.r1 ≠ 0 ∧ contents.r2 ≠ 0 ∧ contents.d1 ≠ 0 ∧ contents.d2 ≠ 0
  points : contents.x ≠ 0 ∧ contents.y ≠ 0 ∧ contents.a1 ≠ 0 ∧ contents.b1 ≠ 0 ∧
    contents.a2 ≠ 0 ∧ contents.b2 ≠ 0

def Satisfies (gY : crypto.Point) : Prop :=
  OneInTwo crypto gY contents.r1 contents.r2 contents.d1 contents.d2 contents.x contents.y
    contents.a1 contents.b1 contents.a2 contents.b2

variable {contents} {gY : crypto.Point}

/-- What can be taken out of the encoding was put in encodable. -/
theorem encodable_of_extracted (scalars : (contents.zkp.extractScalars crypto).isSome)
    (points : (contents.zkp.extractPoints crypto).isSome) : contents.Encodable := by
  obtain ⟨⟨_, _, _, _⟩, extracted⟩ := Option.isSome_iff_exists.mp scalars
  obtain ⟨⟨_, _, _, _, _, _⟩, alsoExtracted⟩ := Option.isSome_iff_exists.mp points
  obtain ⟨r1, r2, d1, d2⟩ := (OneInTwoZKP.extractScalars_eq_some crypto).mp extracted
  obtain ⟨x, y, a1, b1, a2, b2⟩ := (OneInTwoZKP.extractPoints_eq_some crypto).mp alsoExtracted
  have scalar : ∀ {s found : crypto.Scalar},
      crypto.convertVecToScalar (crypto.curve.encodeScalar s).toList = some found → s ≠ 0 :=
    fun decoded => (crypto.convertVecToScalar_encode.mp decoded).1
  have point : ∀ {p found : crypto.Point},
      crypto.convertVecToPoint (crypto.curve.encodePoint p) = some found → p ≠ 0 :=
    fun decoded => (crypto.convertVecToPoint_encode.mp decoded).1
  exact ⟨⟨scalar r1, scalar r2, scalar d1, scalar d2⟩,
    ⟨point x, point y, point a1, point b1, point a2, point b2⟩⟩

theorem encodable_of_accepted (accepted : verifyOneInTwoZkp crypto contents.zkp gY = some true) :
    contents.Encodable := by
  obtain ⟨_, _, _, _, _, _, _, _, _, _, scalars, points, _⟩ :=
    verifyOneInTwoZkp_accepts.mp accepted
  exact encodable_of_extracted (Option.isSome_of_eq_some scalars) (Option.isSome_of_eq_some points)

/-- Contents that satisfy the equations are accepted just when they can be encoded. -/
theorem accepted_iff (satisfies : contents.Satisfies gY) :
    verifyOneInTwoZkp crypto contents.zkp gY = some true ↔ contents.Encodable := by
  refine ⟨encodable_of_accepted, fun encodable => ?_⟩
  obtain ⟨scalars, points⟩ := OneInTwoZKP.extract_new crypto encodable.scalars encodable.points
  exact verifyOneInTwoZkp_accepts.mpr
    ⟨_, _, _, _, _, _, _, _, _, _, scalars, points, satisfies⟩

end Contents

section Provers

variable (x : crypto.Scalar) (gY : crypto.Point)
  (total : ∀ bytes, ∃ scalar, crypto.hashToScalar bytes = some scalar)

include total

theorem createSchnorrZkp_complete (w : crypto.Scalar) :
    ∃ gW r, createSchnorrZkp crypto (x • crypto.curve.generator) x w =
        some (SchnorrProof.new crypto gW r) ∧
      (verifySchnorrZkp crypto (x • crypto.curve.generator) (SchnorrProof.new crypto gW r) =
        some true ↔ gW ≠ 0 ∧ r ≠ 0) := by
  obtain ⟨z, hashed⟩ := total (crypto.curve.encodePoint
    (crypto.curve.generator + w • crypto.curve.generator + x • crypto.curve.generator))
  refine ⟨w • crypto.curve.generator, w - x * z, ?_, ?_⟩
  · simp only [createSchnorrZkp, hashed, Option.bind_eq_bind, Option.bind_some, Option.pure_def]
  · have holds : z • x • crypto.curve.generator + (w - x * z) • crypto.curve.generator =
        w • crypto.curve.generator := by
      rw [answered w x z, add_comm]
    constructor
    · intro accepted
      obtain ⟨_, extracted, _⟩ := Option.bind_eq_some_iff.mp accepted
      exact ((SchnorrProof.extract_new crypto).mp extracted).1
    · intro nonzero
      have extracted := (SchnorrProof.extract_new crypto).mpr ⟨nonzero, rfl⟩
      simp only [verifySchnorrZkp, extracted, hashed, holds, Option.bind_eq_bind,
        Option.bind_some, decide_true, Option.pure_def]

theorem createOneInTwoZkpYes_complete (w r1 d1 : crypto.Scalar) :
    ∃ contents : Contents crypto,
      createOneInTwoZkpYes crypto (x • crypto.curve.generator) gY x w r1 d1 = some contents.zkp ∧
      contents.x = x • crypto.curve.generator ∧
      contents.y = x • gY + crypto.curve.generator ∧ contents.Satisfies gY := by
  let gX := x • crypto.curve.generator
  let y := x • gY + crypto.curve.generator
  let a1 := r1 • crypto.curve.generator + d1 • gX
  let b1 := r1 • gY + d1 • y
  let a2 := w • crypto.curve.generator
  let b2 := w • gY
  obtain ⟨c, hashed⟩ := total (crypto.curve.encodePoint (gX + y + a1 + b1 + a2 + b2))
  let d2 := c - d1
  let r2 := w - x * d2
  refine ⟨{ r1, r2, d1, d2, x := gX, y, a1, b1, a2, b2 }, ?_, rfl, rfl, ?_⟩
  · simp only [createOneInTwoZkpYes, gX, y, a1, b1, a2, b2] at hashed ⊢
    rw [hashed]
    rfl
  · exact {
      challenge := hashed.trans (congrArg some (add_sub_cancel d1 c).symm)
      a1 := rfl
      b1 := rfl
      a2 := answered w x d2 crypto.curve.generator
      b2 := by
        have vote : y - crypto.curve.generator = x • gY := add_sub_cancel_right _ _
        rw [vote]
        exact answered w x d2 gY }

theorem createOneInTwoZkpNo_complete (w r2 d2 : crypto.Scalar) :
    ∃ contents : Contents crypto,
      createOneInTwoZkpNo crypto (x • crypto.curve.generator) gY x w r2 d2 = some contents.zkp ∧
      contents.x = x • crypto.curve.generator ∧ contents.y = x • gY ∧
      contents.Satisfies gY := by
  let gX := x • crypto.curve.generator
  let y := x • gY
  let a1 := w • crypto.curve.generator
  let b1 := w • gY
  let a2 := r2 • crypto.curve.generator + d2 • gX
  let b2 := r2 • gY + d2 • (y - crypto.curve.generator)
  obtain ⟨c, hashed⟩ := total (crypto.curve.encodePoint (gX + y + a1 + b1 + a2 + b2))
  let d1 := c - d2
  let r1 := w - x * d1
  refine ⟨{ r1, r2, d1, d2, x := gX, y, a1, b1, a2, b2 }, ?_, rfl, rfl, ?_⟩
  · simp only [createOneInTwoZkpNo, gX, y, a1, b1, a2, b2] at hashed ⊢
    rw [hashed]
    rfl
  · exact {
      challenge := hashed.trans (congrArg some (sub_add_cancel c d2).symm)
      a1 := answered w x d1 crypto.curve.generator
      b1 := answered w x d1 gY
      a2 := rfl
      b2 := rfl }

/-- Whatever the secret, the random choices and the hash, an honest proof is
accepted just when it holds no zero scalar and no neutral element. -/
theorem provers_complete :
    (∀ w, ∃ gW r, createSchnorrZkp crypto (x • crypto.curve.generator) x w =
        some (SchnorrProof.new crypto gW r) ∧
      (verifySchnorrZkp crypto (x • crypto.curve.generator) (SchnorrProof.new crypto gW r) =
        some true ↔ gW ≠ 0 ∧ r ≠ 0)) ∧
    (∀ w r1 d1, ∃ contents : Contents crypto,
      createOneInTwoZkpYes crypto (x • crypto.curve.generator) gY x w r1 d1 =
        some contents.zkp ∧
      contents.x = x • crypto.curve.generator ∧
      contents.y = x • gY + crypto.curve.generator ∧
      (verifyOneInTwoZkp crypto contents.zkp gY = some true ↔ contents.Encodable)) ∧
    ∀ w r2 d2, ∃ contents : Contents crypto,
      createOneInTwoZkpNo crypto (x • crypto.curve.generator) gY x w r2 d2 = some contents.zkp ∧
      contents.x = x • crypto.curve.generator ∧ contents.y = x • gY ∧
      (verifyOneInTwoZkp crypto contents.zkp gY = some true ↔ contents.Encodable) := by
  refine ⟨createSchnorrZkp_complete x total, fun w r1 d1 => ?_, fun w r2 d2 => ?_⟩
  · obtain ⟨contents, created, key, vote, satisfies⟩ :=
      createOneInTwoZkpYes_complete x gY total w r1 d1
    exact ⟨contents, created, key, vote, Contents.accepted_iff satisfies⟩
  · obtain ⟨contents, created, key, vote, satisfies⟩ :=
      createOneInTwoZkpNo_complete x gY total w r2 d2
    exact ⟨contents, created, key, vote, Contents.accepted_iff satisfies⟩

end Provers

namespace Small

abbrev gX : smallPrimitives.Point := (3 : smallPrimitives.Scalar) • smallPrimitives.curve.generator

abbrev gY : smallPrimitives.Point := (7 : smallPrimitives.Scalar) • smallPrimitives.curve.generator

end Small

theorem provers_complete_small :
    (∃ gW r, createSchnorrZkp smallPrimitives Small.gX 3 2 =
        some (SchnorrProof.new smallPrimitives gW r) ∧
      verifySchnorrZkp smallPrimitives Small.gX (SchnorrProof.new smallPrimitives gW r) =
        some true) ∧
    (∃ contents : Contents smallPrimitives,
      createOneInTwoZkpYes smallPrimitives Small.gX Small.gY 3 2 4 6 = some contents.zkp ∧
      contents.x = Small.gX ∧ contents.y = (22 : ZMod 101) ∧
      verifyOneInTwoZkp smallPrimitives contents.zkp Small.gY = some true) ∧
    ∃ contents : Contents smallPrimitives,
      createOneInTwoZkpNo smallPrimitives Small.gX Small.gY 3 2 4 6 = some contents.zkp ∧
      contents.x = Small.gX ∧ contents.y = (21 : ZMod 101) ∧
      verifyOneInTwoZkp smallPrimitives contents.zkp Small.gY = some true := by
  -- nothing that is sent is a zero
  have keyDecodes : (createSchnorrZkp smallPrimitives Small.gX 3 2).all
      (fun zkp => (zkp.extractPrimitives smallPrimitives).isSome) = true := by
    decide +kernel
  have yesDecodes : (createOneInTwoZkpYes smallPrimitives Small.gX Small.gY 3 2 4 6).all
      (fun zkp => (zkp.extractScalars smallPrimitives).isSome &&
        (zkp.extractPoints smallPrimitives).isSome) = true := by
    decide +kernel
  have noDecodes : (createOneInTwoZkpNo smallPrimitives Small.gX Small.gY 3 2 4 6).all
      (fun zkp => (zkp.extractScalars smallPrimitives).isSome &&
        (zkp.extractPoints smallPrimitives).isSome) = true := by
    decide +kernel
  obtain ⟨schnorr, yes, no⟩ := @provers_complete smallPrimitives 3 Small.gY hashToScalar_small
  refine ⟨?_, ?_, ?_⟩
  · obtain ⟨gW, r, created, accepted⟩ := schnorr 2
    rw [created, Option.all_some] at keyDecodes
    obtain ⟨_, extracted⟩ := Option.isSome_iff_exists.mp keyDecodes
    exact ⟨gW, r, created,
      accepted.mpr ((SchnorrProof.extract_new smallPrimitives).mp extracted).1⟩
  · obtain ⟨contents, created, key, vote, accepted⟩ := yes 2 4 6
    rw [created, Option.all_some, Bool.and_eq_true] at yesDecodes
    exact ⟨contents, created, key, vote,
      accepted.mpr (Contents.encodable_of_extracted yesDecodes.1 yesDecodes.2)⟩
  · obtain ⟨contents, created, key, vote, accepted⟩ := no 2 4 6
    rw [created, Option.all_some, Bool.and_eq_true] at noDecodes
    exact ⟨contents, created, key, vote,
      accepted.mpr (Contents.encodable_of_extracted noDecodes.1 noDecodes.2)⟩

end SmartContracts.Voting
