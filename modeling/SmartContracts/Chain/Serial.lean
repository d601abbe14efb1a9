import SmartContracts.Chain.Types
import SmartContracts.Data.Codec
import SmartContracts.Data.Words

namespace SmartContracts.Chain

open SmartContracts.Data

/-! # Serialization

How values are laid out in parameters and in the contract state: fields one after
the other, words with the lowest byte first, and lists behind their length.  The
length is cut to 32 bits, so that a list of more elements is not read back.
-/

class Serialize (α : Type) where
  serial : α → Bytes
  deserial : Source UInt8 α
  Fits : α → Prop
  inverts : Inverts deserial serial Fits

open Serialize

/-! ## Words -/

section Words

variable {ω : Type} {toNat : ω → ℕ} {ofNat : ℕ → ω} {count : ℕ}

/-- A word is read from its bytes, whatever they are. -/
theorem inverts_word (below : ∀ word, toNat word < 256 ^ count)
    (there : ∀ word, ofNat (toNat word) = word)
    (back : ∀ n, n < 256 ^ count → toNat (ofNat n) = n) :
    Inverts
      (Source.readExact count >>= fun bytes =>
        pure (ofNat (Nat.ofDigits 256 (bytes.map UInt8.toNat))))
      (fun word => lowBytes count (toNat word)) fun _ => True := by
  have complete : ∀ (word : ω) (bytes : Bytes), bytes.length = count →
      (True ∧ lowBytes count (toNat word) = bytes ↔
        word = ofNat (Nat.ofDigits 256 (bytes.map UInt8.toNat))) := by
    intro word bytes length
    constructor
    · rintro ⟨_, rfl⟩
      rw [ofDigits_lowBytes, Nat.mod_eq_of_lt (below word), there]
    · intro read
      have small := ofDigits_bytes_lt bytes
      rw [length] at small
      rw [read, back _ small, ← length, lowBytes_ofDigits]
      exact ⟨trivial, rfl⟩
  apply ((Inverts.exactly count).last _ complete).congr
  exact fun word => ⟨fun _ => ⟨trivial, length_lowBytes _ _⟩, fun _ => trivial⟩

end Words

instance serializeU8 : Serialize UInt8 where
  serial word := lowBytes 1 word.toNat
  deserial := do
    let bytes ← Source.readExact 1
    return UInt8.ofNat (Nat.ofDigits 256 (bytes.map UInt8.toNat))
  Fits _ := True
  inverts := inverts_word (fun word => word.toNat_lt) (fun _ => UInt8.ofNat_toNat)
    fun _ small => UInt8.toNat_ofNat_of_lt' small

instance serializeU32 : Serialize UInt32 where
  serial word := lowBytes 4 word.toNat
  deserial := do
    let bytes ← Source.readExact 4
    return UInt32.ofNat (Nat.ofDigits 256 (bytes.map UInt8.toNat))
  Fits _ := True
  inverts := inverts_word (fun word => word.toNat_lt) (fun _ => UInt32.ofNat_toNat)
    fun _ small => UInt32.toNat_ofNat_of_lt' small

instance serializeU64 : Serialize UInt64 where
  serial := toLeBytes
  deserial := do
    let bytes ← Source.readExact 8
    return fromLeBytes bytes
  Fits _ := True
  inverts := inverts_word (fun word => word.toNat_lt) (fun _ => UInt64.ofNat_toNat)
    fun _ small => UInt64.toNat_ofNat_of_lt' small

/-- The bytes of the unsigned word with the same bits. -/
instance serializeI32 : Serialize Int32 where
  serial word := serial word.toUInt32
  deserial := do
    let word : UInt32 ← deserial
    return word.toInt32
  Fits _ := True
  inverts := by
    apply Inverts.record
    apply (inverts (α := UInt32)).last Int32.toUInt32
    intro value word _
    constructor
    · rintro ⟨_, rfl⟩
      rfl
    · rintro rfl
      exact ⟨trivial, rfl⟩

/-! ## Tags -/

/-- A byte that stands for a value, where some bytes stand for none. -/
theorem inverts_tag {α : Type} {tag : α → UInt8} {ofTag : UInt8 → Option α}
    (exact : ∀ byte value, ofTag byte = some value ↔ tag value = byte) :
    Inverts (deserial >>= fun byte => Source.ofOption (ofTag byte))
      (fun value => serial (tag value)) fun _ => True :=
  (inverts (α := UInt8)).via fun byte value _ => exact byte value

def boolTag (value : Bool) : UInt8 := if value then 1 else 0

def boolOfTag : UInt8 → Option Bool
  | 0 => some false
  | 1 => some true
  | _ => none

theorem boolOfTag_iff (byte : UInt8) (value : Bool) :
    boolOfTag byte = some value ↔ boolTag value = byte := by
  unfold boolOfTag
  split
  · cases value <;> decide
  · cases value <;> decide
  · rename_i notFalse notTrue
    cases value with
    | false => exact ⟨nofun, fun same => absurd same.symm notFalse⟩
    | true => exact ⟨nofun, fun same => absurd same.symm notTrue⟩

instance serializeBool : Serialize Bool where
  serial value := serial (boolTag value)
  deserial := do
    let byte : UInt8 ← deserial
    Source.ofOption (boolOfTag byte)
  Fits _ := True
  inverts := inverts_tag boolOfTag_iff

/-! ## Sequences -/

section Sequences

variable {α : Type} [serialize : Serialize α]

/-- The count in front is that of a 32-bit word. -/
instance serializeVec : Serialize (List α) where
  serial values := serial (UInt32.ofNat values.length) ++ values.flatMap serial
  deserial := do
    let len : UInt32 ← deserial
    Source.readMany deserial len.toNat
  Fits values := values.length < 2 ^ 32 ∧ ∀ value ∈ values, Fits value
  inverts := by
    have tail : ∀ len : UInt32, Inverts (Source.readMany (deserial (α := α)) len.toNat)
        (List.flatMap serial) fun values =>
          (values.length < 2 ^ 32 ∧ UInt32.ofNat values.length = len) ∧
            ∀ value ∈ values, Fits value := by
      intro len
      apply ((inverts (α := α)).many len.toNat).congr
      intro values
      apply and_congr_left'
      constructor
      · rintro ⟨short, rfl⟩
        exact (UInt32.toNat_ofNat_of_lt' short).symm
      · intro length
        rw [length]
        exact ⟨len.toNat_lt, UInt32.ofNat_toNat⟩
    apply ((inverts (α := UInt32)).field
      (fun values : List α => UInt32.ofNat values.length) tail).congr
    exact fun values => ⟨fun fit => ⟨fit.1, trivial, fit.2⟩, fun fit => ⟨fit.1, fit.2.2⟩⟩

/-- An array, whose length is known from its type. -/
instance serializeArray (size : ℕ) : Serialize (Vector α size) where
  serial values := values.toList.flatMap serial
  deserial := do
    let values ← Source.readMany (deserial (α := α)) size
    Source.ofOption (if same : values.length = size then some ⟨values.toArray, same⟩ else none)
  Fits values := ∀ value ∈ values.toList, Fits value
  inverts := by
    apply (((inverts (α := α)).many size).via fun values array fit => ?_).congr
    · exact fun array => ⟨fun fit => ⟨array.length_toList, fit⟩, fun fit => fit.2⟩
    · rw [dif_pos fit.1]
      constructor
      · rintro ⟨⟩
        rfl
      · rintro rfl
        rfl

end Sequences

def stringBytes (text : String) : Bytes := text.toByteArray.data.toList

def stringOfBytes (bytes : Bytes) : Option String := String.fromUTF8? ⟨bytes.toArray⟩

theorem stringOfBytes_iff (bytes : Bytes) (text : String) :
    stringOfBytes bytes = some text ↔ stringBytes text = bytes := by
  unfold stringOfBytes String.fromUTF8? stringBytes
  constructor
  · intro decoded
    split at decoded
    · obtain rfl := Option.some.inj decoded
      rfl
    · cases decoded
  · rintro rfl
    rw [dif_pos text.isValidUTF8]
    rfl

instance serializeString : Serialize String where
  serial text := serial (stringBytes text)
  deserial := do
    let bytes : Bytes ← deserial
    Source.ofOption (stringOfBytes bytes)
  Fits text := Fits (stringBytes text)
  inverts := (inverts (α := Bytes)).via fun bytes text _ => stringOfBytes_iff bytes text

/-! ## Records of the chain -/

def accountOfBytes (bytes : Bytes) : Option AccountAddress :=
  if size : bytes.length = 32 then some ⟨bytes, size⟩ else none

instance serializeAccountAddress : Serialize AccountAddress where
  serial account := account.bytes
  deserial := do
    let bytes ← Source.readExact 32
    Source.ofOption (accountOfBytes bytes)
  Fits _ := True
  inverts := by
    apply ((Inverts.exactly 32).via fun bytes account fit => ?_).congr
    · exact fun account => ⟨fun _ => account.size, fun _ => trivial⟩
    · rw [accountOfBytes, dif_pos fit]
      constructor
      · rintro ⟨⟩
        rfl
      · rintro rfl
        rfl

instance serializePair {α β : Type} [serializeFirst : Serialize α] [serializeSecond : Serialize β] :
    Serialize (α × β) where
  serial pair := serial pair.1 ++ serial pair.2
  deserial := do
    let x ← deserial
    let y ← deserial
    return (x, y)
  Fits pair := Fits pair.1 ∧ Fits pair.2
  inverts := by
    apply Inverts.record
    apply (inverts (α := α)).field Prod.fst fun x => (inverts (α := β)).last Prod.snd ?_
    rintro ⟨first, second⟩ y _
    simp

/-! ## What fits

Words, tags and addresses always do; a list does when its length does.
-/

section Fitting

@[simp] theorem fits_u8 (word : UInt8) : Fits word := trivial

@[simp] theorem fits_u64 (word : UInt64) : Fits word := trivial

@[simp] theorem fits_i32 (word : Int32) : Fits word := trivial

@[simp] theorem fits_bool (value : Bool) : Fits value := trivial

@[simp] theorem fits_account (account : AccountAddress) : Fits account := trivial

@[simp] theorem fits_array (size : ℕ) (bytes : Vector UInt8 size) : Fits bytes :=
  fun byte _ => fits_u8 byte

end Fitting

/-- What takes fewer bytes than a 32-bit word counts can be read back. -/
def Readable (α : Type) [serialize : Serialize α] : Prop :=
  ∀ value : α, (serial value).length < 2 ^ 32 → Fits value

theorem length_serial_vec {α : Type} [serialize : Serialize α] (values : List α) :
    (serial values).length = 4 + (values.flatMap serial).length := by
  rw [show serial values = serial (UInt32.ofNat values.length) ++ values.flatMap serial from rfl,
    List.length_append]
  exact congrArg (· + _) (length_lowBytes 4 _)

theorem readable_vec {α : Type} [serialize : Serialize α] (readable : Readable α)
    (positive : ∀ value : α, 0 < (serial value).length) : Readable (List α) := by
  intro values short
  rw [length_serial_vec, List.length_flatMap] at short
  have count : values.length ≤ (values.map fun value => (serial value).length).sum := by
    have each := List.card_nsmul_le_sum (values.map fun value => (serial value).length) 1
      (List.forall_mem_map.mpr fun value _ => positive value)
    simpa using each
  refine ⟨by omega, fun value member => readable value ?_⟩
  have part := List.single_le_sum (fun _ _ => Nat.zero_le _) _
    (List.mem_map_of_mem (f := fun value => (serial value).length) member)
  omega

theorem readable_bytes : Readable Bytes :=
  readable_vec (fun _ _ => trivial) fun word => (length_lowBytes 1 word.toNat).symm ▸ Nat.one_pos

theorem readable_string : Readable String := fun text => readable_bytes (stringBytes text)

/-- `to_bytes`: the bytes of a value alone. -/
def toBytes {α : Type} [serialize : Serialize α] (value : α) : Bytes := serial value

/-- `get` on a cursor at the start: what is behind the value is not looked at. -/
def fromBytes {α : Type} [serialize : Serialize α] (bytes : Bytes) : Option α :=
  (deserial bytes).map Prod.fst

theorem fromBytes_iff {α : Type} [serialize : Serialize α] {bytes : Bytes} {value : α} :
    fromBytes bytes = some value ↔ Fits value ∧ serial value <+: bytes := by
  constructor
  · intro found
    obtain ⟨⟨same, rest⟩, read, rfl⟩ := Option.map_eq_some_iff.mp found
    obtain ⟨fit, rfl⟩ := inverts.write_read read
    exact ⟨fit, rest, rfl⟩
  · rintro ⟨fit, rest, rfl⟩
    exact Option.map_eq_some_iff.mpr ⟨(value, rest), inverts.read_write rest fit, rfl⟩

end SmartContracts.Chain
