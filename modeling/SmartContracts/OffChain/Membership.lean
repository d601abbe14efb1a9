import SmartContracts.Crypto.Util
import SmartContracts.RsMerkle.Tree

namespace SmartContracts.OffChain

open SmartContracts.Chain SmartContracts.Crypto SmartContracts.RsMerkle

/-! # The list of authorized voters

The organizer hashes the accounts into a tree whose root goes into the
configuration of the vote, and each voter takes a proof of membership from it.
-/

variable (crypto : Primitives)

def accountHash (account : AccountAddress) : Hash := crypto.sha256 account.bytes

/-- Create a merkle tree for storing its root in the contract via the voteconfig -/
def createMerkleTree (leafValues : List AccountAddress) : MerkleTree :=
  MerkleTree.fromLeaves crypto.sha256 (leafValues.map (accountHash crypto))

/-- Create a merkle proof-of-membership via your AccountAddress and the tree
itself; `none` is a panic. -/
def createMerkleProof (account : AccountAddress) (merkleTree : MerkleTree) :
    Option Crypto.MerkleProof := do
  let leaves ← merkleTree.leaves
  let indexToProve ← leaves.findIdx? (· = accountHash crypto account)
  let leafToProve ← leaves[indexToProve]?
  let merkleProof := merkleTree.proof [indexToProve]
  return { proof := merkleProof.toBytes, leaf := leafToProve, index := Int32.ofNat indexToProve }

variable {crypto} {accounts : List AccountAddress} {account : AccountAddress}

/-- A listed account is found at the first leaf with its hash. -/
theorem createMerkleProof_listed (fits : accounts.length < 2 ^ 31) (listed : account ∈ accounts) :
    ∃ index, (accounts.map (accountHash crypto))[index]? = some (accountHash crypto account) ∧
      createMerkleProof crypto account (createMerkleTree crypto accounts) =
        some { proof := ((createMerkleTree crypto accounts).proof [index]).toBytes
               leaf := accountHash crypto account
               index := Int32.ofNat index } := by
  have member : accountHash crypto account ∈ accounts.map (accountHash crypto) :=
    List.mem_map_of_mem listed
  have nonempty : accounts.map (accountHash crypto) ≠ [] := List.ne_nil_of_mem member
  have small : (accounts.map (accountHash crypto)).length < 2 ^ 31 := by simpa using fits
  have leaves : (createMerkleTree crypto accounts).leaves =
      some (accounts.map (accountHash crypto)) := leaves_fromLeaves nonempty small
  cases search : (accounts.map (accountHash crypto)).findIdx?
      (· = accountHash crypto account) with
  | none =>
      have absent := List.findIdx?_eq_none_iff.mp search _ member
      simp at absent
  | some index =>
      obtain ⟨inside, same, _⟩ := List.findIdx?_eq_some_iff_getElem.mp search
      have found : (accounts.map (accountHash crypto))[index]? =
          some (accountHash crypto account) := by
        rw [List.getElem?_eq_getElem inside]
        exact congrArg some (of_decide_eq_true same)
      refine ⟨index, found, ?_⟩
      rw [createMerkleProof, leaves]
      simp only [Option.bind_eq_bind, Option.bind_some, search, found]
      rfl

end SmartContracts.OffChain
