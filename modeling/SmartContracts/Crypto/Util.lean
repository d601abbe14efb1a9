import SmartContracts.Crypto.Curve

namespace SmartContracts.Crypto

open SmartContracts.Chain

/-! # Proofs as they travel

The types of the `util` crate.  A proof is sent as byte strings, and taking it
apart traps when one of them is not a point or a scalar.
-/

structure OneInTwoZKP where
  r1 : Bytes
  r2 : Bytes
  d1 : Bytes
  d2 : Bytes
  x : Bytes
  y : Bytes
  a1 : Bytes
  b1 : Bytes
  a2 : Bytes
  b2 : Bytes
deriving DecidableEq

structure SchnorrProof where
  gW : Bytes
  r : Bytes
deriving DecidableEq

structure MerkleProof where
  proof : Bytes
  leaf : Hash
  index : Int32
deriving DecidableEq

instance : Inhabited OneInTwoZKP := ⟨⟨[], [], [], [], [], [], [], [], [], []⟩⟩

instance : Inhabited SchnorrProof := ⟨⟨[], []⟩⟩

variable (crypto : Primitives)

namespace OneInTwoZKP

def new (r1 r2 d1 d2 : crypto.Scalar) (x y a1 b1 a2 b2 : crypto.Point) : OneInTwoZKP where
  r1 := (crypto.curve.encodeScalar r1).toList
  r2 := (crypto.curve.encodeScalar r2).toList
  d1 := (crypto.curve.encodeScalar d1).toList
  d2 := (crypto.curve.encodeScalar d2).toList
  x := crypto.curve.encodePoint x
  y := crypto.curve.encodePoint y
  a1 := crypto.curve.encodePoint a1
  b1 := crypto.curve.encodePoint b1
  a2 := crypto.curve.encodePoint a2
  b2 := crypto.curve.encodePoint b2

def extractScalars (zkp : OneInTwoZKP) :
    Option (crypto.Scalar × crypto.Scalar × crypto.Scalar × crypto.Scalar) := do
  let r1 ← crypto.convertVecToScalar zkp.r1
  let r2 ← crypto.convertVecToScalar zkp.r2
  let d1 ← crypto.convertVecToScalar zkp.d1
  let d2 ← crypto.convertVecToScalar zkp.d2
  return (r1, r2, d1, d2)

def extractPoints (zkp : OneInTwoZKP) : Option (crypto.Point × crypto.Point × crypto.Point ×
    crypto.Point × crypto.Point × crypto.Point) := do
  let x ← crypto.convertVecToPoint zkp.x
  let y ← crypto.convertVecToPoint zkp.y
  let a1 ← crypto.convertVecToPoint zkp.a1
  let b1 ← crypto.convertVecToPoint zkp.b1
  let a2 ← crypto.convertVecToPoint zkp.a2
  let b2 ← crypto.convertVecToPoint zkp.b2
  return (x, y, a1, b1, a2, b2)

theorem extractScalars_eq_some {zkp : OneInTwoZKP} {r1 r2 d1 d2 : crypto.Scalar} :
    zkp.extractScalars crypto = some (r1, r2, d1, d2) ↔
      crypto.convertVecToScalar zkp.r1 = some r1 ∧ crypto.convertVecToScalar zkp.r2 = some r2 ∧
      crypto.convertVecToScalar zkp.d1 = some d1 ∧ crypto.convertVecToScalar zkp.d2 = some d2 := by
  simp only [extractScalars, Option.bind_eq_bind, Option.bind_eq_some_iff, Option.pure_def,
    Option.some.injEq, Prod.mk.injEq]
  grind

theorem extractPoints_eq_some {zkp : OneInTwoZKP} {x y a1 b1 a2 b2 : crypto.Point} :
    zkp.extractPoints crypto = some (x, y, a1, b1, a2, b2) ↔
      crypto.convertVecToPoint zkp.x = some x ∧ crypto.convertVecToPoint zkp.y = some y ∧
      crypto.convertVecToPoint zkp.a1 = some a1 ∧ crypto.convertVecToPoint zkp.b1 = some b1 ∧
      crypto.convertVecToPoint zkp.a2 = some a2 ∧ crypto.convertVecToPoint zkp.b2 = some b2 := by
  simp only [extractPoints, Option.bind_eq_bind, Option.bind_eq_some_iff, Option.pure_def,
    Option.some.injEq, Prod.mk.injEq]
  grind

/-- A proof made of nonzero scalars and points survives the encoding. -/
theorem extract_new {r1 r2 d1 d2 : crypto.Scalar} {x y a1 b1 a2 b2 : crypto.Point}
    (scalars : r1 ≠ 0 ∧ r2 ≠ 0 ∧ d1 ≠ 0 ∧ d2 ≠ 0)
    (points : x ≠ 0 ∧ y ≠ 0 ∧ a1 ≠ 0 ∧ b1 ≠ 0 ∧ a2 ≠ 0 ∧ b2 ≠ 0) :
    (new crypto r1 r2 d1 d2 x y a1 b1 a2 b2).extractScalars crypto = some (r1, r2, d1, d2) ∧
    (new crypto r1 r2 d1 d2 x y a1 b1 a2 b2).extractPoints crypto =
      some (x, y, a1, b1, a2, b2) := by
  have scalar : ∀ s : crypto.Scalar, s ≠ 0 →
      crypto.convertVecToScalar (crypto.curve.encodeScalar s).toList = some s :=
    fun s nonzero => crypto.convertVecToScalar_encode.mpr ⟨nonzero, rfl⟩
  have point : ∀ p : crypto.Point, p ≠ 0 →
      crypto.convertVecToPoint (crypto.curve.encodePoint p) = some p :=
    fun p nonzero => crypto.convertVecToPoint_encode.mpr ⟨nonzero, rfl⟩
  rw [extractScalars_eq_some, extractPoints_eq_some]
  obtain ⟨r1Nonzero, r2Nonzero, d1Nonzero, d2Nonzero⟩ := scalars
  obtain ⟨xNonzero, yNonzero, a1Nonzero, b1Nonzero, a2Nonzero, b2Nonzero⟩ := points
  exact ⟨⟨scalar r1 r1Nonzero, scalar r2 r2Nonzero, scalar d1 d1Nonzero, scalar d2 d2Nonzero⟩,
    point x xNonzero, point y yNonzero, point a1 a1Nonzero, point b1 b1Nonzero,
    point a2 a2Nonzero, point b2 b2Nonzero⟩

end OneInTwoZKP

namespace SchnorrProof

def new (gW : crypto.Point) (r : crypto.Scalar) : SchnorrProof where
  gW := crypto.curve.encodePoint gW
  r := (crypto.curve.encodeScalar r).toList

def extractPrimitives (schnorr : SchnorrProof) : Option (crypto.Point × crypto.Scalar) := do
  let gW ← crypto.convertVecToPoint schnorr.gW
  let r ← crypto.convertVecToScalar schnorr.r
  return (gW, r)

theorem extract_new {gW : crypto.Point} {r : crypto.Scalar}
    {found : crypto.Point × crypto.Scalar} :
    (new crypto gW r).extractPrimitives crypto = some found ↔
      (gW ≠ 0 ∧ r ≠ 0) ∧ (gW, r) = found := by
  simp only [extractPrimitives, new, Option.bind_eq_bind, Option.bind_eq_some_iff,
    crypto.convertVecToPoint_encode, crypto.convertVecToScalar_encode, Option.pure_def,
    Option.some.injEq]
  constructor
  · intro extracted
    obtain ⟨_, ⟨gWNonzero, rfl⟩, _, ⟨rNonzero, rfl⟩, same⟩ := extracted
    exact ⟨⟨gWNonzero, rNonzero⟩, same⟩
  · intro extracted
    obtain ⟨⟨gWNonzero, rNonzero⟩, same⟩ := extracted
    exact ⟨gW, ⟨gWNonzero, rfl⟩, r, ⟨rNonzero, rfl⟩, same⟩

end SchnorrProof

end SmartContracts.Crypto
