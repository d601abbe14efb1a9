import Mathlib

namespace SmartContracts.Data

/-! # Machine words

Sums and products of 64-bit words wrap around silently; an operation is exact
when it has not.  As bytes, words can be read back.
-/

inductive Operation where
  | add (left right : UInt64)
  | mul (left right : UInt64)
deriving DecidableEq

namespace Operation

/-- What the machine computes. -/
def machine : Operation → UInt64
  | add left right => left + right
  | mul left right => left * right

/-- What it stands for. -/
def value : Operation → ℕ
  | add left right => left.toNat + right.toNat
  | mul left right => left.toNat * right.toNat

def Exact (operation : Operation) : Prop := operation.machine.toNat = operation.value

instance decidableExact (operation : Operation) : Decidable operation.Exact :=
  inferInstanceAs (Decidable (operation.machine.toNat = operation.value))

theorem machine_toNat (operation : Operation) :
    operation.machine.toNat = operation.value % 2 ^ 64 := by
  cases operation with
  | add left right => exact UInt64.toNat_add left right
  | mul left right => exact UInt64.toNat_mul left right

theorem exact_iff {operation : Operation} : operation.Exact ↔ operation.value < 2 ^ 64 := by
  rw [Exact, machine_toNat]
  constructor
  · intro same
    rw [← same]
    exact Nat.mod_lt _ (by decide)
  · exact Nat.mod_eq_of_lt

end Operation

/-! ## Words as bytes, the lowest first -/

def lowBytes : ℕ → ℕ → List UInt8
  | 0, _ => []
  | count + 1, value => UInt8.ofNat value :: lowBytes count (value / 256)

def toLeBytes (word : UInt64) : List UInt8 := lowBytes 8 word.toNat

def fromLeBytes (bytes : List UInt8) : UInt64 :=
  UInt64.ofNat (Nat.ofDigits 256 (bytes.map UInt8.toNat))

@[simp] theorem length_lowBytes (count value : ℕ) : (lowBytes count value).length = count := by
  induction count generalizing value with
  | zero => rfl
  | succ count ih => rw [lowBytes, List.length_cons, ih]

theorem ofDigits_lowBytes (count value : ℕ) :
    Nat.ofDigits 256 ((lowBytes count value).map UInt8.toNat) = value % 256 ^ count := by
  induction count generalizing value with
  | zero => simp [lowBytes, Nat.mod_one]
  | succ count ih =>
      have lowest : (UInt8.ofNat value).toNat = value % 256 := UInt8.toNat_ofNat
      rw [lowBytes, List.map_cons, Nat.ofDigits_cons, ih, lowest, pow_succ', Nat.mod_mul]

theorem lowBytes_ofDigits (bytes : List UInt8) :
    lowBytes bytes.length (Nat.ofDigits 256 (bytes.map UInt8.toNat)) = bytes := by
  induction bytes with
  | nil => rfl
  | cons byte rest ih =>
      have small : byte.toNat < 256 := byte.toNat_lt
      have lowest : UInt8.ofNat (byte.toNat + 256 * Nat.ofDigits 256 (rest.map UInt8.toNat)) =
          byte := by
        rw [← UInt8.toNat_inj, UInt8.toNat_ofNat', Nat.add_mul_mod_self_left,
          Nat.mod_eq_of_lt small]
      have others : (byte.toNat + 256 * Nat.ofDigits 256 (rest.map UInt8.toNat)) / 256 =
          Nat.ofDigits 256 (rest.map UInt8.toNat) := by omega
      rw [List.length_cons, List.map_cons, Nat.ofDigits_cons, lowBytes, lowest, others, ih]

theorem ofDigits_bytes_lt (bytes : List UInt8) :
    Nat.ofDigits 256 (bytes.map UInt8.toNat) < 256 ^ bytes.length := by
  have digits : ∀ digit ∈ bytes.map UInt8.toNat, digit < 256 := by
    intro digit member
    obtain ⟨byte, _, rfl⟩ := List.mem_map.mp member
    exact byte.toNat_lt
  simpa using Nat.ofDigits_lt_base_pow_length (by norm_num) digits

@[simp] theorem length_toLeBytes (word : UInt64) : (toLeBytes word).length = 8 :=
  length_lowBytes 8 word.toNat

@[simp] theorem fromLeBytes_toLeBytes (word : UInt64) : fromLeBytes (toLeBytes word) = word := by
  have inside : word.toNat < 256 ^ 8 := word.toNat_lt
  rw [fromLeBytes, toLeBytes, ofDigits_lowBytes, Nat.mod_eq_of_lt inside, UInt64.ofNat_toNat]

end SmartContracts.Data
