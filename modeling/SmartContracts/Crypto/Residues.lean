import SmartContracts.Crypto.Curve

namespace SmartContracts.Crypto

open SmartContracts.Algebra SmartContracts.Chain

/-! # A curve to compute with

The residues modulo a prime, under addition, with 1 as the generator.  It has
the encodings of the real curve, tag byte and all, but discrete logarithms are
plain, so concrete runs of the contracts can be evaluated on it.
-/

def bigEndian : ℕ → ℕ → Bytes
  | 0, _ => []
  | width + 1, n => bigEndian width (n / 256) ++ [UInt8.ofNat n]

def ofBigEndian (bytes : Bytes) : ℕ := bytes.foldl (fun value byte => value * 256 + byte.toNat) 0

@[simp] theorem length_bigEndian (width n : ℕ) : (bigEndian width n).length = width := by
  induction width generalizing n with
  | zero => rfl
  | succ width ih => simp [bigEndian, ih]

theorem ofBigEndian_bigEndian (width n : ℕ) :
    ofBigEndian (bigEndian width n) = n % 256 ^ width := by
  induction width generalizing n with
  | zero => simp [bigEndian, ofBigEndian, Nat.mod_one]
  | succ width ih =>
      have upper := ih (n / 256)
      unfold ofBigEndian at upper
      rw [ofBigEndian, bigEndian, List.foldl_append, upper]
      simp only [List.foldl_cons, List.foldl_nil, UInt8.toNat_ofNat']
      rw [@Nat.pow_succ' 256 width, Nat.mod_mul]
      omega

def hashOf (n : ℕ) : Hash := ⟨(bigEndian 32 n).toArray, by simp⟩

theorem ofBigEndian_hashOf {n : ℕ} (fits : n < 256 ^ 32) : ofBigEndian (hashOf n).toList = n := by
  have bytes : (hashOf n).toList = bigEndian 32 n := by simp [hashOf, Vector.toList]
  rw [bytes, ofBigEndian_bigEndian, Nat.mod_eq_of_lt fits]

section Residues

variable (p : ℕ)

def encodeResidue (residue : ZMod p) : Bytes :=
  if residue = 0 then List.replicate 33 0 else 2 :: bigEndian 32 residue.val

def decodeNonzero (value : ℕ) : Option (ZMod p) :=
  if 0 < value ∧ value < p then some value else none

def decodeResidue : Bytes → Option (ZMod p)
  | tag :: rest =>
      if tag = 2 ∧ rest.length = 32 then decodeNonzero p (ofBigEndian rest) else none
  | [] => none

def decodeResidueScalar (bytes : Bytes) : Option (ZMod p) :=
  if bytes.length = 32 then decodeNonzero p (ofBigEndian bytes) else none

variable {p}

theorem decodeNonzero_val [NeZero p] (residue : ZMod p) :
    decodeNonzero p residue.val = if residue = 0 then none else some residue := by
  by_cases zero : residue = 0
  · simp [decodeNonzero, zero]
  · have positive : 0 < residue.val := Nat.pos_of_ne_zero fun none =>
      zero ((ZMod.val_eq_zero residue).mp none)
    rw [decodeNonzero, if_pos ⟨positive, residue.val_lt⟩, if_neg zero, ZMod.natCast_zmod_val]

theorem decodeNonzero_ne_zero {value : ℕ} {residue : ZMod p}
    (decoded : decodeNonzero p value = some residue) : residue ≠ 0 := by
  unfold decodeNonzero at decoded
  split at decoded
  · rename_i bounds
    have cast := Option.some.inj decoded
    intro zero
    rw [zero, ZMod.natCast_eq_zero_iff] at cast
    exact absurd (Nat.le_of_dvd bounds.1 cast) (by omega)
  · cases decoded

theorem generates_one [Fact p.Prime] : Generates p (1 : ZMod p) :=
  ⟨one_ne_zero, fun point => ⟨point, mul_one point⟩⟩

end Residues

def residues (p : ℕ) [Fact p.Prime] (fits : p ≤ 256 ^ 32) : Curve where
  Point := ZMod p
  order := p
  prime := inferInstance
  generator := 1
  generates := generates_one
  encodePoint := encodeResidue p
  decodePoint := decodeResidue p
  encodeScalar scalar := hashOf scalar.val
  decodeScalar := decodeResidueScalar p
  decode_encodePoint residue := by
    by_cases zero : residue = 0
    · simp [encodeResidue, zero, decodeResidue, List.replicate]
    · have value := Nat.lt_of_lt_of_le residue.val_lt fits
      simp only [encodeResidue, zero, if_false, decodeResidue, length_bigEndian, and_self,
        if_true, ofBigEndian_bigEndian, Nat.mod_eq_of_lt value, decodeNonzero_val]
  decodePoint_ne_zero bytes residue decoded := by
    unfold decodeResidue at decoded
    split at decoded
    · split at decoded
      · exact decodeNonzero_ne_zero decoded
      · cases decoded
    · cases decoded
  decodePoint_nil := rfl
  decode_encodeScalar scalar := by
    have value := Nat.lt_of_lt_of_le scalar.val_lt fits
    rw [decodeResidueScalar, if_pos (by simp), ofBigEndian_hashOf value, decodeNonzero_val]
  decodeScalar_ne_zero bytes scalar decoded := by
    unfold decodeResidueScalar at decoded
    split at decoded
    · exact decodeNonzero_ne_zero decoded
    · cases decoded

theorem hashToScalar_residues {p : ℕ} [Fact p.Prime] (fits : p ≤ 256 ^ 32) (hash : Bytes → Hash)
    (bytes : Bytes) :
    Primitives.hashToScalar { curve := residues p fits, sha256 := hash } bytes =
      decodeResidueScalar p (hash bytes).toList := rfl

/-- A checksum in place of SHA-256, always the encoding of a nonzero scalar. -/
def checksum (order : ℕ) (bytes : Bytes) : Hash :=
  hashOf (1 + bytes.foldl (fun sum byte => (sum * 31 + byte.toNat) % (order - 1)) 0)

theorem decode_checksum {order : ℕ} (several : 1 < order) (fits : order ≤ 256 ^ 32)
    (bytes : Bytes) :
    ∃ scalar, decodeResidueScalar order (checksum order bytes).toList = some scalar := by
  have reduced : ∀ (bytes : Bytes) (start : ℕ), start < order - 1 →
      bytes.foldl (fun sum byte => (sum * 31 + byte.toNat) % (order - 1)) start < order - 1 := by
    intro bytes
    induction bytes with
    | nil => exact fun _ small => small
    | cons byte rest ih => exact fun _ _ => ih _ (Nat.mod_lt _ (by omega))
  have small := reduced bytes 0 (by omega)
  rw [decodeResidueScalar, if_pos (by simp), checksum, ofBigEndian_hashOf (by omega),
    decodeNonzero, if_pos ⟨by omega, by omega⟩]
  exact ⟨_, rfl⟩

instance prime_101 : Fact (Nat.Prime 101) := ⟨by norm_num⟩

/-- Residues modulo 101 with the checksum. -/
def smallPrimitives : Primitives where
  curve := residues 101 (by norm_num)
  sha256 := checksum 101

theorem hashToScalar_small (bytes : Bytes) :
    ∃ scalar, smallPrimitives.hashToScalar bytes = some scalar := by
  obtain ⟨scalar, decoded⟩ := @decode_checksum 101 (by norm_num) (by norm_num) bytes
  exact ⟨scalar, (hashToScalar_residues _ _ bytes).trans decoded⟩

end SmartContracts.Crypto
