import SmartContracts.Crypto.Residues
import SmartContracts.Voting.Crypto

namespace SmartContracts.Voting

open SmartContracts.Algebra SmartContracts.Chain SmartContracts.Crypto

/-! # Forging one-in-two proofs

The challenge hashes the sum of the six points.  With `a2 = -a1` and `b2 = -b1`
the sum is `x + y` whatever the commitments are, so a forger learns the
challenge first and splits it to fit any vote.
-/

/-- The curve with an arbitrary function in place of the hash to a scalar. -/
def hashingWith (curve : Curve) (hash : Bytes → curve.Scalar) : Primitives where
  curve := curve
  sha256 bytes := curve.encodeScalar (hash bytes)

theorem hashToScalar_hashingWith {curve : Curve} {hash : Bytes → curve.Scalar}
    (nonzero : ∀ bytes, hash bytes ≠ 0) (bytes : Bytes) :
    (hashingWith curve hash).hashToScalar bytes = some (hash bytes) := by
  rw [Primitives.hashToScalar, Primitives.convertVecToScalar]
  exact (curve.decode_encodeScalar (hash bytes)).trans (if_neg (nonzero bytes))

/-! ## The equations -/

section Equations

variable {R G : Type*} [CommRing R] [AddCommGroup G] [Module R G]

/-- Splitting the challenge as `(1 - m) c + m c` makes the second pair of
commitments the negative of the first. -/
theorem forged_commitments (x m c r : R) (generator gY : G) :
    (-r - x * c) • generator + (m * c) • x • generator =
      -(r • generator + ((1 - m) * c) • x • generator) ∧
    (-r - x * c) • gY + (m * c) • (x • gY + m • generator - generator) =
      -(r • gY + ((1 - m) * c) • (x • gY + m • generator)) := by
  refine ⟨by module, by module⟩

end Equations

/-- A scalar outside any four. -/
theorem exists_other_scalar {q : ℕ} [Fact q.Prime] (large : 4 < q) (a b c d : ZMod q) :
    ∃ r : ZMod q, r ≠ a ∧ r ≠ b ∧ r ≠ c ∧ r ≠ d := by
  have fewer : ({a, b, c, d} : Finset (ZMod q)).card < (Finset.univ : Finset (ZMod q)).card := by
    rw [Finset.card_univ, ZMod.card]
    exact Nat.lt_of_le_of_lt Finset.card_le_four large
  obtain ⟨r, _, outside⟩ := Finset.exists_mem_notMem_of_card_lt_card fewer
  refine ⟨r, ?_⟩
  simpa only [Finset.mem_insert, Finset.mem_singleton, not_or] using outside

/-- A scalar that makes no response and no commitment of the forger vanish. -/
theorem exists_forger_scalar {q : ℕ} [Fact q.Prime] (large : 4 < q) {x y m c : ZMod q}
    (notYes : m ≠ 1) (challenge : c ≠ 0) (vote : x * y + m ≠ 0) :
    ∃ r : ZMod q, r ≠ 0 ∧ -r - x * c ≠ 0 ∧ r + (1 - m) * c * x ≠ 0 ∧
      r * y + (1 - m) * c * (x * y + m) ≠ 0 := by
  obtain ⟨r, nonzero, response, first, second⟩ := exists_other_scalar large 0 (-(x * c))
    (-((1 - m) * c * x)) (-((1 - m) * c * (x * y + m)) / y)
  refine ⟨r, nonzero, fun zero => ?_, fun zero => ?_, fun zero => ?_⟩
  · exact response (by linear_combination -zero)
  · exact first (by linear_combination zero)
  · by_cases unblinded : y = 0
    · have product : (1 - m) * c * (x * y + m) = 0 := by
        rw [← zero, unblinded]
        ring
      exact mul_ne_zero (mul_ne_zero (sub_ne_zero.mpr notYes.symm) challenge) vote product
    · refine second ((eq_div_iff unblinded).mpr ?_)
      linear_combination zero

/-- For every hash there is an accepted proof of any vote but 0 and 1. -/
theorem forged_accepted {curve : Curve} (large : 4 < curve.order) {x m : curve.Scalar}
    {gY : curve.Point} (notNo : m ≠ 0) (notYes : m ≠ 1) (key : x • curve.generator ≠ 0)
    (vote : x • gY + m • curve.generator ≠ 0) {hash : Bytes → curve.Scalar}
    (nonzero : ∀ bytes, hash bytes ≠ 0) :
    ∃ zkp : OneInTwoZKP,
      curve.decodePoint zkp.x = some (x • curve.generator) ∧
      curve.decodePoint zkp.y = some (x • gY + m • curve.generator) ∧
      verifyOneInTwoZkp (hashingWith curve hash) zkp gY = some true := by
  have prime := curve.prime
  obtain ⟨y, rfl⟩ := curve.generates.spans gY
  have logs : ∀ k : curve.Scalar, k ≠ 0 → k • curve.generator ≠ 0 := fun k nonzero =>
    mt curve.generates.smul_eq_zero_iff.mp nonzero
  let gX := x • curve.generator
  let gV := x • y • curve.generator + m • curve.generator
  let c := hash (curve.encodePoint (gX + gV))
  have challenge : c ≠ 0 := nonzero _
  have voteLog : x * y + m ≠ 0 := by
    intro zero
    refine vote ?_
    rw [smul_smul, ← add_smul, zero, zero_smul]
  obtain ⟨r1, r1Nonzero, r2Nonzero, a1Log, b1Log⟩ :=
    exists_forger_scalar large notYes challenge voteLog
  have d1Nonzero : (1 - m) * c ≠ 0 := mul_ne_zero (sub_ne_zero.mpr notYes.symm) challenge
  have d2Nonzero : m * c ≠ 0 := mul_ne_zero notNo challenge
  let a1 := r1 • curve.generator + ((1 - m) * c) • gX
  let b1 := r1 • y • curve.generator + ((1 - m) * c) • gV
  have a1Nonzero : a1 ≠ 0 := by
    have nonzeroLog := logs _ a1Log
    rwa [add_smul, mul_smul] at nonzeroLog
  have b1Nonzero : b1 ≠ 0 := by
    have same : (r1 * y + (1 - m) * c * (x * y + m)) • curve.generator = b1 := by module
    exact same ▸ logs _ b1Log
  obtain ⟨scalars, points⟩ := @OneInTwoZKP.extract_new (hashingWith curve hash)
    r1 (-r1 - x * c : curve.Scalar) ((1 - m) * c : curve.Scalar) (m * c) gX gV a1 b1 (-a1) (-b1)
    ⟨r1Nonzero, r2Nonzero, d1Nonzero, d2Nonzero⟩
    ⟨key, vote, a1Nonzero, b1Nonzero, neg_ne_zero.mpr a1Nonzero, neg_ne_zero.mpr b1Nonzero⟩
  obtain ⟨a2, b2⟩ := forged_commitments x m c r1 curve.generator (y • curve.generator)
  have hashed : hash (curve.encodePoint (gX + gV + a1 + b1 + -a1 + -b1)) =
      (1 - m) * c + m * c := by
    have cancelled : gX + gV + a1 + b1 + -a1 + -b1 = gX + gV := by abel
    rw [cancelled]
    ring
  obtain ⟨statementX, statementY, _⟩ := (OneInTwoZKP.extractPoints_eq_some _).mp points
  refine ⟨_, statementX, statementY, verifyOneInTwoZkp_accepts.mpr
    ⟨_, _, _, _, gX, gV, a1, b1, -a1, -b1, scalars, points, ?_⟩⟩
  exact {
    challenge := (hashToScalar_hashingWith nonzero _).trans (congrArg some hashed)
    a1 := rfl
    b1 := rfl
    a2 := a2.symm
    b2 := b2.symm }

/-- The discrete logarithms of an accepted proof. -/
theorem accepted_logs {crypto : Primitives} {x y m : crypto.Scalar} {zkp : OneInTwoZKP}
    (key : crypto.curve.decodePoint zkp.x = some (x • crypto.curve.generator))
    (vote : crypto.curve.decodePoint zkp.y =
      some (x • y • crypto.curve.generator + m • crypto.curve.generator))
    (accepted : verifyOneInTwoZkp crypto zkp (y • crypto.curve.generator) = some true) :
    ∃ r1 r2 d1 d2 : crypto.Scalar, x ≠ 0 ∧ (r1 ≠ 0 ∧ r2 ≠ 0) ∧ (d1 ≠ 0 ∧ d2 ≠ 0) ∧
      (r1 + d1 * x ≠ 0 ∧ r1 * y + d1 * (x * y + m) ≠ 0) ∧
      (r2 + d2 * x ≠ 0 ∧ r2 * y + d2 * (x * y + m - 1) ≠ 0) ∧
      crypto.hashToScalar (crypto.curve.encodePoint
        ((x + (x * y + m) + (r1 + d1 * x) + (r1 * y + d1 * (x * y + m)) + (r2 + d2 * x) +
          (r2 * y + d2 * (x * y + m - 1))) • crypto.curve.generator)) = some (d1 + d2) := by
  obtain ⟨r1, r2, d1, d2, gX, gV, a1, b1, a2, b2, scalars, points, equations⟩ :=
    verifyOneInTwoZkp_accepts.mp accepted
  obtain ⟨r1Sent, r2Sent, d1Sent, d2Sent⟩ := (OneInTwoZKP.extractScalars_eq_some _).mp scalars
  obtain ⟨xSent, ySent, a1Sent, b1Sent, a2Sent, b2Sent⟩ :=
    (OneInTwoZKP.extractPoints_eq_some _).mp points
  obtain rfl : gX = x • crypto.curve.generator := Option.some.inj (xSent.symm.trans key)
  obtain rfl : gV = x • y • crypto.curve.generator + m • crypto.curve.generator :=
    Option.some.inj (ySent.symm.trans vote)
  obtain ⟨hashed, rfl, rfl, rfl, rfl⟩ := equations
  have log : ∀ {bytes point} (k : crypto.Scalar), crypto.curve.decodePoint bytes = some point →
      point = k • crypto.curve.generator → k ≠ 0 := fun k sent same zero =>
    crypto.curve.decodePoint_ne_zero _ _ sent (by rw [same, zero, zero_smul])
  refine ⟨r1, r2, d1, d2, log x xSent rfl,
    ⟨crypto.curve.decodeScalar_ne_zero _ _ r1Sent, crypto.curve.decodeScalar_ne_zero _ _ r2Sent⟩,
    ⟨crypto.curve.decodeScalar_ne_zero _ _ d1Sent, crypto.curve.decodeScalar_ne_zero _ _ d2Sent⟩,
    ⟨log _ a1Sent (by module), log _ b1Sent (by module)⟩,
    ⟨log _ a2Sent (by module), log _ b2Sent (by module)⟩, ?_⟩
  rw [← hashed]
  congr 2
  module

/-! ## Where forging fails -/

theorem eq_of_add_ne_zero : ∀ a b : ZMod 3, a ≠ 0 → b ≠ 0 → a + b ≠ 0 → a = b := by
  decide

theorem votes_mod_two : ∀ m : ZMod 2, m = 0 ∨ m = 1 := by
  decide

theorem four_lt_of_other_vote {q : ℕ} [Fact q.Prime] {m : ZMod q} (notNo : m ≠ 0) (notYes : m ≠ 1)
    (notThree : q ≠ 3) : 4 < q := by
  by_contra small
  have twoLe := (Fact.out : q.Prime).two_le
  obtain rfl | rfl | rfl : q = 2 ∨ q = 3 ∨ q = 4 := by omega
  · exact (votes_mod_two m).elim notNo notYes
  · exact notThree rfl
  · exact absurd Fact.out (by norm_num : ¬ Nat.Prime 4)

/-- Modulo 3 the nonzero scalars of an accepted proof are fixed up to the
challenge, and the two challenges have different sums. -/
theorem challenge_mod_three {q : ℕ} (three : q = 3) {x y m r1 r2 d1 d2 : ZMod q}
    (notNo : m ≠ 0) (notYes : m ≠ 1) (key : x ≠ 0) (responses : r1 ≠ 0 ∧ r2 ≠ 0)
    (parts : d1 ≠ 0 ∧ d2 ≠ 0) (challenge : d1 + d2 ≠ 0)
    (first : r1 + d1 * x ≠ 0 ∧ r1 * y + d1 * (x * y + m) ≠ 0)
    (second : r2 + d2 * x ≠ 0 ∧ r2 * y + d2 * (x * y + m - 1) ≠ 0) :
    d1 + d2 ≠ if x + (x * y + m) + (r1 + d1 * x) + (r1 * y + d1 * (x * y + m)) +
      (r2 + d2 * x) + (r2 * y + d2 * (x * y + m - 1)) = 2 then 2 else 1 := by
  subst three
  have others : ∀ m : ZMod 3, m ≠ 0 → m ≠ 1 → m = 2 := by decide
  have two := others m notNo notYes
  obtain rfl : d1 = d2 := eq_of_add_ne_zero d1 d2 parts.1 parts.2 challenge
  have product : d1 * x ≠ 0 := mul_ne_zero parts.1 key
  obtain rfl : r1 = d1 * x := eq_of_add_ne_zero r1 _ responses.1 product first.1
  obtain rfl : r2 = d1 * x := eq_of_add_ne_zero r2 _ responses.2 product second.1
  have unblinded : x * y = 0 := by
    have left : x * y + (x * y + 2) ≠ 0 := by
      intro zero
      exact first.2 (by linear_combination d1 * zero + d1 * two)
    have right : x * y + (x * y + 2 - 1) ≠ 0 := by
      intro zero
      exact second.2 (by linear_combination d1 * zero + d1 * two)
    generalize x * y = t at left right
    clear first second
    revert t
    decide
  obtain rfl : y = 0 := (mul_eq_zero.mp unblinded).resolve_left key
  subst two
  have table : ∀ x : ZMod 3, x ≠ 0 → ∀ d : ZMod 3, d ≠ 0 →
      d + d ≠ if x + (x * 0 + 2) + (d * x + d * x) + (d * x * 0 + d * (x * 0 + 2)) +
        (d * x + d * x) + (d * x * 0 + d * (x * 0 + 2 - 1)) = 2 then 2 else 1 := by
    decide
  exact table x key d1 parts.1

/-- One for all sums but one, which gets itself. -/
def guarded (curve : Curve) (sum : curve.Scalar) (bytes : Bytes) : curve.Scalar :=
  if bytes = curve.encodePoint (sum • curve.generator) then sum else 1

theorem guarded_encodePoint {curve : Curve} (k : curve.Scalar) :
    guarded curve 2 (curve.encodePoint (k • curve.generator)) = if k = 2 then 2 else 1 := by
  have prime := curve.prime
  simp only [guarded, curve.encodePoint_injective.eq_iff, curve.generates.smul_inj]

theorem guarded_ne_zero {curve : Curve} (three : curve.order = 3) (bytes : Bytes) :
    guarded curve 2 bytes ≠ 0 := by
  have prime := curve.prime
  have two : ∀ {q}, q = 3 → (2 : ZMod q) ≠ 0 := by
    intro q three
    subst three
    decide
  unfold guarded
  split
  · exact two three
  · exact one_ne_zero

theorem guarded_resists {curve : Curve} (three : curve.order = 3) {x m : curve.Scalar}
    {gY : curve.Point} (notNo : m ≠ 0) (notYes : m ≠ 1) {zkp : OneInTwoZKP}
    (key : curve.decodePoint zkp.x = some (x • curve.generator))
    (vote : curve.decodePoint zkp.y = some (x • gY + m • curve.generator)) :
    verifyOneInTwoZkp (hashingWith curve (guarded curve 2)) zkp gY ≠ some true := by
  have prime := curve.prime
  intro accepted
  obtain ⟨y, rfl⟩ := curve.generates.spans gY
  obtain ⟨r1, r2, d1, d2, keyLog, responses, parts, first, second, hashed⟩ :=
    @accepted_logs (hashingWith curve (guarded curve 2)) x y m zkp key vote accepted
  have value := Option.some.inj
    ((hashToScalar_hashingWith (guarded_ne_zero three) _).symm.trans hashed)
  have challenge : d1 + d2 ≠ 0 := value ▸ guarded_ne_zero three _
  exact challenge_mod_three three notNo notYes keyLog responses parts challenge first second
    (value.symm.trans (guarded_encodePoint _))

/-- A vote that is neither 0 nor 1 can be proved against every hash, unless a
point of the statement is the identity or there are only three scalars. -/
theorem resists_iff {curve : Curve} {x m : curve.Scalar} {gY : curve.Point} (notNo : m ≠ 0)
    (notYes : m ≠ 1) :
    (∃ hash : Bytes → curve.Scalar, (∀ bytes, hash bytes ≠ 0) ∧ ∀ zkp : OneInTwoZKP,
      curve.decodePoint zkp.x = some (x • curve.generator) →
      curve.decodePoint zkp.y = some (x • gY + m • curve.generator) →
      verifyOneInTwoZkp (hashingWith curve hash) zkp gY ≠ some true) ↔
    x • curve.generator = 0 ∨ x • gY + m • curve.generator = 0 ∨ curve.order = 3 := by
  have prime := curve.prime
  constructor
  · intro ⟨hash, nonzero, resists⟩
    by_contra forgeable
    obtain ⟨key, vote, notThree⟩ : x • curve.generator ≠ 0 ∧
        x • gY + m • curve.generator ≠ 0 ∧ curve.order ≠ 3 := by
      simpa only [not_or] using forgeable
    have large := four_lt_of_other_vote notNo notYes notThree
    obtain ⟨zkp, statementX, statementY, accepted⟩ :=
      forged_accepted large notNo notYes key vote nonzero
    exact resists zkp statementX statementY accepted
  · rintro (noKey | noVote | three)
    · refine ⟨fun _ => 1, fun _ => one_ne_zero, fun zkp key => ?_⟩
      exact absurd noKey (curve.decodePoint_ne_zero _ _ key)
    · refine ⟨fun _ => 1, fun _ => one_ne_zero, fun zkp _ vote => ?_⟩
      exact absurd noVote (curve.decodePoint_ne_zero _ _ vote)
    · exact ⟨guarded curve 2, guarded_ne_zero three, fun zkp => guarded_resists three notNo notYes⟩

/-- The vote 2 by the voter with the secret 2, as an instance. -/
theorem resists_iff_residues :
    ¬ ∃ hash : Bytes → smallPrimitives.curve.Scalar, (∀ bytes, hash bytes ≠ 0) ∧
      ∀ zkp : OneInTwoZKP,
        smallPrimitives.curve.decodePoint zkp.x =
          some ((2 : smallPrimitives.curve.Scalar) • smallPrimitives.curve.generator) →
        smallPrimitives.curve.decodePoint zkp.y =
          some ((2 : smallPrimitives.curve.Scalar) • smallPrimitives.curve.generator +
            (2 : smallPrimitives.curve.Scalar) • smallPrimitives.curve.generator) →
        verifyOneInTwoZkp (hashingWith smallPrimitives.curve hash) zkp
          smallPrimitives.curve.generator ≠ some true := by
  intro resisted
  have trivially := (@resists_iff smallPrimitives.curve 2 2 smallPrimitives.curve.generator
    (by decide) (by decide)).mp resisted
  revert trivially
  decide

theorem forged_on_residues :
    ¬ ∀ (x m : smallPrimitives.curve.Scalar) (gY : smallPrimitives.curve.Point),
      m ≠ 0 → m ≠ 1 →
      ∃ hash : Bytes → smallPrimitives.curve.Scalar, (∀ bytes, hash bytes ≠ 0) ∧
        ∀ zkp : OneInTwoZKP,
          smallPrimitives.curve.decodePoint zkp.x =
            some (x • smallPrimitives.curve.generator) →
          smallPrimitives.curve.decodePoint zkp.y =
            some (x • gY + m • smallPrimitives.curve.generator) →
          verifyOneInTwoZkp (hashingWith smallPrimitives.curve hash) zkp gY ≠ some true := by
  intro sound
  obtain ⟨hash, nonzero, resists⟩ := sound 3 5 smallPrimitives.curve.generator (by decide)
    (by decide)
  obtain ⟨zkp, key, vote, accepted⟩ := @forged_accepted smallPrimitives.curve (by decide) 3 5
    smallPrimitives.curve.generator (by decide) (by decide) (by decide) (by decide) hash nonzero
  exact resists zkp key vote accepted

end SmartContracts.Voting
