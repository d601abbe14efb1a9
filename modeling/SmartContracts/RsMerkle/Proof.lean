import SmartContracts.Data.Lists
import SmartContracts.RsMerkle.Indices

namespace SmartContracts.RsMerkle

open SmartContracts.Chain SmartContracts.Crypto SmartContracts.Data

/-! # Checking a Merkle proof

`MerkleProof` of `rs_merkle`: reading a proof from bytes and computing the root
it leads to.  A proof with fewer hashes than the positions call for makes
`splice` panic, which is kept apart from the errors the crate reports.
-/

inductive ErrorKind where
  | serializedProofSizeIsIncorrect
  | notEnoughHelperNodes
  | hashConversionError
  | notEnoughHashesToCalculateRoot
  | leavesIndicesCountMismatch
deriving DecidableEq

abbrev Layer := List (ℕ × Hash)

structure MerkleProof where
  proofHashes : List Hash

def hashSize : ℕ := 32

/-- Direct order: the hashes one after the other. -/
def MerkleProof.toBytes (proof : MerkleProof) : Bytes :=
  proof.proofHashes.flatMap Vector.toList

def MerkleProof.fromBytes (bytes : Bytes) : Except ErrorKind MerkleProof :=
  if bytes.length % hashSize ≠ 0 then .error .serializedProofSizeIsIncorrect
  else
    let slices := (List.range (bytes.length / hashSize)).map fun i =>
      (bytes.drop (i * hashSize)).take hashSize
    match slices.mapM Hash.ofBytes? with
    | some proofHashes => .ok ⟨proofHashes⟩
    | none => .error .hashConversionError

section Tree

variable (hash : Bytes → Hash)

/-- A node without a right sibling is carried up unhashed. -/
def concatAndHash (left : Hash) : Option Hash → Hash
  | some right => hash (left.toList ++ right.toList)
  | none => left

def sortLayer (layer : Layer) : Layer := layer.insertionSort (fun a b => a.1 ≤ b.1)

def parentNodes (nodes : List Hash) : ℕ → List ℕ → Except ErrorKind Layer
  | _, [] => .ok []
  | i, parentNodeIndex :: rest =>
      match nodes[i * 2]? with
      | some leftNode => do
          let above ← parentNodes nodes (i + 1) rest
          .ok ((parentNodeIndex, concatAndHash hash leftNode nodes[i * 2 + 1]?) :: above)
      | none => .error .notEnoughHelperNodes

def buildTree : ℕ → List Layer → Layer → Except ErrorKind (List Layer)
  | 0, _, currentLayer => .ok [currentLayer]
  | remaining + 1, partialLayers, currentLayer => do
      let layer := sortLayer (currentLayer ++ partialLayers.head?.getD [])
      let above ← parentNodes hash (layer.map Prod.snd) 0 (parentIndices (layer.map Prod.fst))
      let tree ← buildTree remaining partialLayers.tail above
      .ok (layer :: tree)

def treeRoot (layers : List Layer) : Option Hash := do
  let top ← layers.getLast?
  let node ← top.head?
  return node.2

/-- `proof_copy.splice(0..proof_indices.len(), [])` for each layer in turn. -/
def spliceByLayers : List (List ℕ) → List Hash → Option (List Layer)
  | [], _ => some []
  | proofIndices :: rest, proofCopy =>
      if proofIndices.length ≤ proofCopy.length then do
        let layers ← spliceByLayers rest (proofCopy.drop proofIndices.length)
        some (proofIndices.zip (proofCopy.take proofIndices.length) :: layers)
      else none

namespace MerkleProof

def root (proof : MerkleProof) (leafIndices : List ℕ) (leafHashes : List Hash)
    (totalLeavesCount : ℕ) : Option (Except ErrorKind Hash) :=
  if leafIndices.length ≠ leafHashes.length then some (.error .leavesIndicesCountMismatch)
  else do
    let leafTuples := sortLayer (leafIndices.zip leafHashes)
    let proofLayers ←
      spliceByLayers (proofIndicesByLayers leafIndices totalLeavesCount) proof.proofHashes
    let withLeaves :=
      match proofLayers with
      | firstLayer :: rest => sortLayer (firstLayer ++ leafTuples) :: rest
      | [] => [leafTuples]
    match buildTree hash (treeDepth totalLeavesCount) withLeaves [] with
    | .error kind => some (.error kind)
    | .ok layers =>
        match treeRoot layers with
        | some extractedRoot => some (.ok extractedRoot)
        | none => some (.error .notEnoughHashesToCalculateRoot)

def verify (proof : MerkleProof) (expectedRoot : Hash) (leafIndices : List ℕ)
    (leafHashes : List Hash) (totalLeavesCount : ℕ) : Option Bool :=
  (proof.root hash leafIndices leafHashes totalLeavesCount).map fun
    | .ok extractedRoot => extractedRoot = expectedRoot
    | .error _ => false

end MerkleProof

end Tree

/-! ## Reading back what was written -/

theorem length_toBytes (proof : MerkleProof) :
    proof.toBytes.length = proof.proofHashes.length * hashSize := by
  simp [MerkleProof.toBytes, hashSize, List.length_flatMap]

theorem slice_toBytes (hashes : List Hash) {i : ℕ} (inside : i < hashes.length) :
    ((hashes.flatMap Vector.toList).drop (i * hashSize)).take hashSize = hashes[i].toList := by
  induction hashes generalizing i with
  | nil => simp at inside
  | cons first rest ih =>
      have size : first.toList.length = hashSize := first.length_toList
      cases i with
      | zero => simp [size]
      | succ i =>
          have skip : (i + 1) * hashSize = first.toList.length + i * hashSize := by
            rw [size]
            ring
          rw [List.flatMap_cons, skip, List.drop_append, List.getElem_cons_succ,
            List.drop_eq_nil_of_le (Nat.le_add_right _ _), Nat.add_sub_cancel_left]
          exact ih (by simpa using inside)

theorem fromBytes_toBytes (proof : MerkleProof) :
    MerkleProof.fromBytes proof.toBytes = .ok proof := by
  have size := length_toBytes proof
  have whole : proof.toBytes.length % hashSize = 0 := by
    rw [size, Nat.mul_mod_left]
  have count : proof.toBytes.length / hashSize = proof.proofHashes.length := by
    rw [size, Nat.mul_div_cancel _ (by decide)]
  have slices : (List.range proof.proofHashes.length).map (fun i =>
      (proof.toBytes.drop (i * hashSize)).take hashSize) =
      proof.proofHashes.map Vector.toList := by
    apply List.ext_getElem
    · simp
    · intro i inRange inHashes
      simp only [List.getElem_map, List.getElem_range]
      exact slice_toBytes proof.proofHashes (by simpa using inHashes)
  have read : (proof.proofHashes.map Vector.toList).mapM Hash.ofBytes? =
      some proof.proofHashes := by
    rw [mapM_eq_some, List.map_map]
    exact List.map_congr_left fun hash _ => Hash.ofBytes?_toList hash
  simp only [MerkleProof.fromBytes, whole, count, slices, read, ne_eq, not_true_eq_false, if_false]

end SmartContracts.RsMerkle
