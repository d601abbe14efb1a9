import SmartContracts.Crypto.Residues
import SmartContracts.OffChain.Membership
import SmartContracts.Voting.Crypto

namespace SmartContracts.Voting

open SmartContracts.Chain SmartContracts.Crypto SmartContracts.Data SmartContracts.Data.HashTree
open SmartContracts.RsMerkle SmartContracts.OffChain

/-! # Who may register

The contract takes a registration from those it can follow up to the root in its
configuration.  The organizer's tree and the contract's check share no code, and
nothing marks a leaf as a leaf but the length of what is hashed.
-/

variable {crypto : Primitives}

theorem verifyMerkleProof_accepts {merkleRoot : Hash} {merkleLeafCount : Int32}
    {message : Crypto.MerkleProof} {sender : AccountAddress} :
    verifyMerkleProof crypto merkleRoot merkleLeafCount message sender = some true ↔
      ∃ proof, RsMerkle.MerkleProof.fromBytes message.proof = .ok proof ∧
        proof.root crypto.sha256 [verifyMerkleProof.i32AsUsize message.index] [message.leaf]
          (verifyMerkleProof.i32AsUsize merkleLeafCount) = some (.ok merkleRoot) ∧
        accountHash crypto sender = message.leaf := by
  rw [verifyMerkleProof]
  cases read : RsMerkle.MerkleProof.fromBytes message.proof with
  | error kind => simp [Except.toOption]
  | ok proof =>
      simp only [Except.toOption, Option.bind_eq_bind, Option.bind_some,
        RsMerkle.MerkleProof.verify, Except.ok.injEq, exists_eq_left']
      cases computed : proof.root crypto.sha256 [verifyMerkleProof.i32AsUsize message.index]
          [message.leaf] (verifyMerkleProof.i32AsUsize merkleLeafCount) with
      | none => simp
      | some outcome =>
          cases outcome with
          | error kind => simp
          | ok root => simp [accountHash]

theorem i32AsUsize_ofNat {value : ℕ} (fits : value < 2 ^ 31) :
    verifyMerkleProof.i32AsUsize (Int32.ofNat value) = value := by
  have small : value < 2 ^ 32 := by omega
  simpa [verifyMerkleProof.i32AsUsize] using small

/-! ## The strings that are hashed -/

section Strings

variable (crypto)

/-- The accounts in the levels of the tree over the list. -/
def accountTrees (accounts : List AccountAddress) : List (HashTree Bytes) :=
  level .node (accounts.map fun account => .leaf account.bytes) (treeDepth accounts.length)

/-- What is hashed to build the tree over the list. -/
def treeStrings (accounts : List AccountAddress) : List Bytes :=
  (accountTrees accounts).flatMap (HashTree.strings crypto.sha256 joinHashes)

/-- What is hashed to check a message. -/
def checkStrings (merkleLeafCount : Int32) (message : Crypto.MerkleProof)
    (sender : AccountAddress) : List Bytes :=
  let leavesCount := verifyMerkleProof.i32AsUsize merkleLeafCount
  let path := do
    let proof ← (RsMerkle.MerkleProof.fromBytes message.proof).toOption
    pathOf (treeDepth leavesCount) leavesCount (verifyMerkleProof.i32AsUsize message.index)
      proof.proofHashes
  sender.bytes :: climbed crypto.sha256 joinHashes (accountHash crypto sender) (path.getD [])

end Strings

/-- An address is shorter than a pair of hashes. -/
theorem address_ne_joinHashes (account : AccountAddress) (a b : Hash) :
    account.bytes ≠ joinHashes a b := by
  intro same
  have sizes := congrArg List.length same
  simp [joinHashes, account.size] at sizes

variable {accounts : List AccountAddress}

/-- The root of the organizer is the digest of the tree over the accounts. -/
theorem accountTrees_root (listed : accounts ≠ []) (fits : accounts.length < 2 ^ 31) :
    ∃ tree, accountTrees accounts = [tree] ∧
      tree.leaves = accounts.map AccountAddress.bytes ∧
      level (combineNodes crypto.sha256) (accounts.map (accountHash crypto))
          (treeDepth accounts.length) = [tree.digest crypto.sha256 joinHashes] := by
  have nonempty : (accounts.map fun account => HashTree.leaf account.bytes) ≠ [] := by
    simpa using listed
  have covered : (accounts.map fun account => HashTree.leaf account.bytes).length ≤
      2 ^ treeDepth accounts.length := by
    simpa using (fits_treeDepth fits).2
  obtain ⟨tree, top⟩ := List.length_eq_one_iff.mp
    (@length_level _ HashTree.node _ nonempty _ covered)
  refine ⟨tree, top, ?_, ?_⟩
  · have leaves := leaves_level (accounts.map fun account => HashTree.leaf account.bytes)
      (treeDepth accounts.length)
    rw [top] at leaves
    rw [List.map_eq_flatMap]
    simpa [HashTree.leaves, List.flatMap_map] using leaves
  · have digests := @map_level _ _ HashTree.node (combineNodes crypto.sha256)
      (HashTree.digest crypto.sha256 joinHashes) (fun _ _ => rfl)
      (accounts.map fun account => HashTree.leaf account.bytes) (treeDepth accounts.length)
    rw [top, List.map_map] at digests
    exact digests.symm

/-! ## Both sides -/

theorem createMerkleTree_root (listed : accounts ≠ []) (fits : accounts.length < 2 ^ 31) :
    ∃ root, (createMerkleTree crypto accounts).root = some root ∧
      level (combineNodes crypto.sha256) (accounts.map (accountHash crypto))
        (treeDepth accounts.length) = [root] := by
  have size : (accounts.map (accountHash crypto)).length = accounts.length := List.length_map _
  have nonempty : accounts.map (accountHash crypto) ≠ [] := by simpa using listed
  obtain ⟨root, top, stored⟩ := @root_fromLeaves crypto.sha256 _ nonempty (size.symm ▸ fits)
  exact ⟨root, stored, size ▸ top⟩

theorem createMerkleProof_accepted {root : Hash} {account : AccountAddress}
    (fits : accounts.length < 2 ^ 31) (listed : account ∈ accounts)
    (stored : (createMerkleTree crypto accounts).root = some root) :
    ∃ message,
      createMerkleProof crypto account (createMerkleTree crypto accounts) = some message ∧
      verifyMerkleProof crypto root (Int32.ofNat accounts.length) message account = some true := by
  obtain ⟨other, same, top⟩ := @createMerkleTree_root crypto _ (List.ne_nil_of_mem listed) fits
  obtain rfl : root = other := Option.some.inj (stored.symm.trans same)
  obtain ⟨index, found, created⟩ := @createMerkleProof_listed crypto accounts account fits listed
  have size : (accounts.map (accountHash crypto)).length = accounts.length := List.length_map _
  have inside := (List.getElem?_eq_some_iff.mp found).1
  have nonempty : accounts.map (accountHash crypto) ≠ [] :=
    List.ne_nil_of_mem (List.mem_map_of_mem listed)
  have verified := root_proof_fromLeaves nonempty (size.symm ▸ fits) found (size.symm ▸ top)
  refine ⟨_, created, verifyMerkleProof_accepts.mpr ⟨_, fromBytes_toBytes _, ?_, rfl⟩⟩
  rw [i32AsUsize_ofNat fits, i32AsUsize_ofNat (by omega), ← size]
  exact verified

/-- Whatever the message says, its path is climbed from the hash of the sender. -/
theorem verifyMerkleProof_climbs {merkleRoot : Hash} {merkleLeafCount : Int32}
    {message : Crypto.MerkleProof} {sender : AccountAddress}
    (tall : 0 < treeDepth (verifyMerkleProof.i32AsUsize merkleLeafCount))
    (accepted : verifyMerkleProof crypto merkleRoot merkleLeafCount message sender = some true) :
    ∃ path, climb crypto.sha256 joinHashes (accountHash crypto sender) path = merkleRoot ∧
      checkStrings crypto merkleLeafCount message sender =
        sender.bytes :: climbed crypto.sha256 joinHashes (accountHash crypto sender) path := by
  obtain ⟨proof, read, computed, hashed⟩ := verifyMerkleProof_accepts.mp accepted
  rw [root_single _ _ _ _ tall, ← hashed] at computed
  obtain ⟨path, found, climbs⟩ := Option.map_eq_some_iff.mp computed
  refine ⟨path, Except.ok.inj climbs, ?_⟩
  simp only [checkStrings, read, Except.toOption, Option.bind_eq_bind, Option.bind_some, found,
    Option.getD_some]

theorem verifyMerkleProof_listed {tree : HashTree Bytes} {message : Crypto.MerkleProof}
    {sender : AccountAddress} (fits : accounts.length < 2 ^ 31)
    (single : accountTrees accounts = [tree])
    (leaves : tree.leaves = accounts.map AccountAddress.bytes)
    (accepted : verifyMerkleProof crypto (tree.digest crypto.sha256 joinHashes)
      (Int32.ofNat accounts.length) message sender = some true) :
    sender ∈ accounts ∨
      Collide crypto.sha256 (treeStrings crypto accounts)
        (checkStrings crypto (Int32.ofNat accounts.length) message sender) := by
  have tall : 0 < treeDepth (verifyMerkleProof.i32AsUsize (Int32.ofNat accounts.length)) := by
    rw [i32AsUsize_ofNat fits]
    exact (fits_treeDepth fits).1
  obtain ⟨path, climbs, strings⟩ := verifyMerkleProof_climbs tall accepted
  have leavesApart : ∀ leaf ∈ tree.leaves, ∀ a b, leaf ≠ joinHashes a b := by
    intro leaf member
    rw [leaves] at member
    obtain ⟨account, _, rfl⟩ := List.mem_map.mp member
    exact address_ne_joinHashes account
  rw [treeStrings, single, strings, List.flatMap_singleton]
  refine (mem_leaves_of_climb joinHashes_injective (address_ne_joinHashes sender) path tree
    leavesApart climbs).imp_left fun member => ?_
  rw [leaves] at member
  obtain ⟨account, listed, same⟩ := List.mem_map.mp member
  have sender : account = sender :=
    AccountAddress.key_injective (congrArg (List.map UInt8.toNat) same)
  exact sender ▸ listed

theorem listed_of_verified (listed : accounts ≠ []) (fits : accounts.length < 2 ^ 31)
    {root : Hash} (stored : (createMerkleTree crypto accounts).root = some root)
    {message : Crypto.MerkleProof} {sender : AccountAddress}
    (verified : verifyMerkleProof crypto root (Int32.ofNat accounts.length) message sender =
      some true) :
    sender ∈ accounts ∨
      Collide crypto.sha256 (treeStrings crypto accounts)
        (checkStrings crypto (Int32.ofNat accounts.length) message sender) := by
  obtain ⟨tree, single, leaves, top⟩ := @accountTrees_root crypto accounts listed fits
  obtain ⟨other, same, last⟩ := @createMerkleTree_root crypto accounts listed fits
  obtain rfl : root = other := Option.some.inj (stored.symm.trans same)
  rw [top] at last
  rw [← (List.cons.inj last).1] at verified
  exact verifyMerkleProof_listed fits single leaves verified

/-- The contract accepts the listed accounts and, short of a collision among the
strings hashed for the tree and for the check, nobody else. -/
theorem authorizes_listed (listed : accounts ≠ []) (fits : accounts.length < 2 ^ 31) :
    ∃ root, (createMerkleTree crypto accounts).root = some root ∧
      (∀ account ∈ accounts, ∃ message,
        createMerkleProof crypto account (createMerkleTree crypto accounts) = some message ∧
        verifyMerkleProof crypto root (Int32.ofNat accounts.length) message account =
          some true) ∧
      ∀ sender message,
        verifyMerkleProof crypto root (Int32.ofNat accounts.length) message sender = some true →
        sender ∈ accounts ∨
          Collide crypto.sha256 (treeStrings crypto accounts)
            (checkStrings crypto (Int32.ofNat accounts.length) message sender) := by
  obtain ⟨root, stored, _⟩ := @createMerkleTree_root crypto accounts listed fits
  refine ⟨root, stored, fun account member => ?_, fun sender message verified => ?_⟩
  · exact createMerkleProof_accepted fits member stored
  · exact listed_of_verified listed fits stored verified

theorem authorizes_listed_three : ∃ root,
    (createMerkleTree smallPrimitives [.ofByte 1, .ofByte 2, .ofByte 3]).root = some root ∧
      (∀ account ∈ [AccountAddress.ofByte 1, .ofByte 2, .ofByte 3], ∃ message,
        createMerkleProof smallPrimitives account
          (createMerkleTree smallPrimitives [.ofByte 1, .ofByte 2, .ofByte 3]) = some message ∧
        verifyMerkleProof smallPrimitives root 3 message account = some true) ∧
      ∀ sender message, verifyMerkleProof smallPrimitives root 3 message sender = some true →
        sender ∈ [AccountAddress.ofByte 1, .ofByte 2, .ofByte 3] ∨
          Collide smallPrimitives.sha256
            (treeStrings smallPrimitives [.ofByte 1, .ofByte 2, .ofByte 3])
            (checkStrings smallPrimitives 3 message sender) :=
  authorizes_listed (List.cons_ne_nil _ _) (by decide)

end SmartContracts.Voting
