import Mathlib

namespace SmartContracts.Chain

/-! # Values the chain hands to a contract -/

abbrev Bytes := List UInt8

-- in micro CCD
abbrev Amount := UInt64

-- in milliseconds since the unix epoch
abbrev Timestamp := UInt64

/-- `value as usize` on the 32-bit target the contracts are deployed to. -/
def asUsize (value : UInt64) : ℕ := value.toNat % 2 ^ 32

structure AccountAddress where
  bytes : Bytes
  size : bytes.length = 32
deriving DecidableEq

namespace AccountAddress

/-- The byte string by which the state trie orders its keys. -/
def key (account : AccountAddress) : List ℕ := account.bytes.map UInt8.toNat

theorem key_injective : Function.Injective key := by
  intro left right same
  have bytes : left.bytes = right.bytes :=
    List.map_injective_iff.mpr (fun _ _ => UInt8.toNat_inj.mp) same
  cases left
  cases right
  simpa using bytes

instance : LinearOrder AccountAddress := LinearOrder.lift' key key_injective

def ofByte (byte : UInt8) : AccountAddress := ⟨List.replicate 32 byte, List.length_replicate⟩

end AccountAddress

structure ContractAddress where
  index : UInt64
  subindex : UInt64
deriving DecidableEq

inductive Address where
  | account (address : AccountAddress)
  | contract (address : ContractAddress)
deriving DecidableEq

def Address.matchesAccount : Address → AccountAddress → Bool
  | .account address, other => address = other
  | .contract _, _ => false

@[simp] theorem Address.matchesAccount_iff {address : Address} {account : AccountAddress} :
    address.matchesAccount account = true ↔ address = .account account := by
  cases address <;> simp [matchesAccount]

structure ReceiveContext where
  sender : Address
  owner : AccountAddress
  slotTime : Timestamp

inductive TransferError where
  | amountTooLarge
  | missingAccount
deriving DecidableEq

end SmartContracts.Chain
