import SmartContracts.Algebra.PrimeGroup
import SmartContracts.Chain.Types

namespace SmartContracts.Crypto

open SmartContracts.Algebra SmartContracts.Chain

/-! # The curve and the hash function

The contracts leave curve arithmetic, the encodings of points and scalars, and
SHA-256 to libraries.  `Curve` states what they rely on: a group of prime order
with a generator, decoders that undo the encoders, and decoders that never give
the neutral element or the zero scalar.  Nothing is assumed of the hash.
-/

abbrev Hash := Vector UInt8 32

def Hash.ofBytes? (bytes : Bytes) : Option Hash :=
  if size : bytes.toArray.size = 32 then some ⟨bytes.toArray, size⟩ else none

theorem Hash.ofBytes?_toList (hash : Hash) : Hash.ofBytes? hash.toList = some hash := by
  simp [Hash.ofBytes?, Vector.toList]

structure Curve where
  Point : Type
  order : ℕ
  [group : AddCommGroup Point]
  [scalars : Module (ZMod order) Point]
  [equality : DecidableEq Point]
  prime : Fact order.Prime
  generator : Point
  generates : Generates order generator
  -- `to_bytes` and `PublicKey::from_sec1_bytes`
  encodePoint : Point → Bytes
  decodePoint : Bytes → Option Point
  -- `to_bytes` and `SecretKey::from_be_bytes`
  encodeScalar : ZMod order → Hash
  decodeScalar : Bytes → Option (ZMod order)
  decode_encodePoint : ∀ point,
    decodePoint (encodePoint point) = if point = 0 then none else some point
  decodePoint_ne_zero : ∀ bytes point, decodePoint bytes = some point → point ≠ 0
  decodePoint_nil : decodePoint [] = none
  decode_encodeScalar : ∀ scalar,
    decodeScalar (encodeScalar scalar).toList = if scalar = 0 then none else some scalar
  decodeScalar_ne_zero : ∀ bytes scalar, decodeScalar bytes = some scalar → scalar ≠ 0

attribute [instance] Curve.group Curve.scalars Curve.equality

namespace Curve

variable {curve : Curve}

abbrev Scalar (curve : Curve) : Type := ZMod curve.order

theorem encodePoint_injective : Function.Injective curve.encodePoint := by
  intro left right same
  have decoded := congrArg curve.decodePoint same
  rw [curve.decode_encodePoint, curve.decode_encodePoint] at decoded
  by_cases zero : left = 0
  · by_cases alsoZero : right = 0
    · rw [zero, alsoZero]
    · simp [zero, alsoZero] at decoded
  · by_cases otherZero : right = 0
    · simp [zero, otherZero] at decoded
    · simpa [zero, otherZero] using decoded

end Curve

/-- The libraries a voting contract is compiled against. -/
structure Primitives where
  curve : Curve
  sha256 : Bytes → Hash

namespace Primitives

variable (crypto : Primitives)

abbrev Point : Type := crypto.curve.Point

abbrev Scalar : Type := crypto.curve.Scalar

/-! The conversions of the `util` crate; `none` is a trap. -/

def convertVecToScalar (vec : Bytes) : Option crypto.Scalar := crypto.curve.decodeScalar vec

def convertVecToPoint (vec : Bytes) : Option crypto.Point := crypto.curve.decodePoint vec

def hashToScalar (bytesToHash : Bytes) : Option crypto.Scalar :=
  crypto.convertVecToScalar (crypto.sha256 bytesToHash).toList

/-! Only the zero scalar and the neutral element do not survive their encoding. -/

theorem convertVecToScalar_encode {scalar found : crypto.Scalar} :
    crypto.convertVecToScalar (crypto.curve.encodeScalar scalar).toList = some found ↔
      scalar ≠ 0 ∧ scalar = found := by
  rw [convertVecToScalar, crypto.curve.decode_encodeScalar]
  by_cases zero : scalar = 0
  · simp [zero]
  · simp [zero]

theorem convertVecToPoint_encode {point found : crypto.Point} :
    crypto.convertVecToPoint (crypto.curve.encodePoint point) = some found ↔
      point ≠ 0 ∧ point = found := by
  rw [convertVecToPoint, crypto.curve.decode_encodePoint]
  by_cases zero : point = 0
  · simp [zero]
  · simp [zero]

end Primitives

end SmartContracts.Crypto
