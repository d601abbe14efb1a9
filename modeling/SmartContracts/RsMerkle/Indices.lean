import SmartContracts.Crypto.Curve

namespace SmartContracts.RsMerkle

/-! # Positions in a Merkle tree

The index arithmetic of `rs_merkle`.  A layer with an odd number of nodes has a
last node without a sibling, which is carried up as it is.
-/

def isLeftIndex (index : ℕ) : Bool := index % 2 = 0

def getSiblingIndex (index : ℕ) : ℕ :=
  if isLeftIndex index then index + 1 else index - 1

def siblingIndices (indices : List ℕ) : List ℕ := indices.map getSiblingIndex

def parentIndex (index : ℕ) : ℕ :=
  if isLeftIndex index then index / 2 else getSiblingIndex index / 2

def parentIndices (indices : List ℕ) : List ℕ := (indices.map parentIndex).eraseReps

/-- On the 32-bit target the last power, `usize::pow(2, 32)`, wraps to zero. -/
def treeDepth (leavesCount : ℕ) : ℕ :=
  let height := if leavesCount = 1 then 1 else 0
  ((List.range' 1 32).find? fun i => leavesCount ≤ 2 ^ i % 2 ^ 32).getD height

def divCeil (x y : ℕ) : ℕ := x / y + if x % y ≠ 0 then 1 else 0

/-- The layers, counted from the leaves, that have an odd number of nodes, with
that number. -/
def unevenLayers (treeLeavesCount : ℕ) : List (ℕ × ℕ) :=
  layers (treeDepth treeLeavesCount) 0 treeLeavesCount
where
  layers : ℕ → ℕ → ℕ → List (ℕ × ℕ)
    | 0, _, _ => []
    | remaining + 1, index, leavesCount =>
        let above := layers remaining (index + 1) (divCeil leavesCount 2)
        if leavesCount % 2 ≠ 0 then (index, leavesCount) :: above else above

def difference (a b : List ℕ) : List ℕ := a.filter (· ∉ b)

/-- For each layer the positions a proof has to supply. -/
def proofIndicesByLayers (sortedLeafIndices : List ℕ) (leavesCount : ℕ) : List (List ℕ) :=
  layers (unevenLayers leavesCount) (treeDepth leavesCount) 0 sortedLeafIndices
where
  layers (uneven : List (ℕ × ℕ)) : ℕ → ℕ → List ℕ → List (List ℕ)
    | 0, _, _ => []
    | remaining + 1, layerIndex, layerNodes =>
        let siblings := siblingIndices layerNodes
        let needed :=
          match uneven.lookup layerIndex, layerNodes.getLast? with
          | some layerCount, some lastNode =>
              if lastNode = layerCount - 1 then siblings.dropLast else siblings
          | _, _ => siblings
        difference needed layerNodes ::
          layers uneven remaining (layerIndex + 1) (parentIndices layerNodes)

theorem getSiblingIndex_even {index : ℕ} (even : index % 2 = 0) :
    getSiblingIndex index = index + 1 := by
  have left : isLeftIndex index = true := decide_eq_true even
  rw [getSiblingIndex, if_pos left]

theorem getSiblingIndex_odd {index : ℕ} (odd : ¬ index % 2 = 0) :
    getSiblingIndex index = index - 1 := by
  have right : isLeftIndex index = false := decide_eq_false odd
  rw [getSiblingIndex, right, if_neg Bool.false_ne_true]

theorem parentIndex_eq (index : ℕ) : parentIndex index = index / 2 := by
  by_cases even : index % 2 = 0
  · have left : isLeftIndex index = true := decide_eq_true even
    rw [parentIndex, if_pos left]
  · have right : isLeftIndex index = false := decide_eq_false even
    rw [parentIndex, right, if_neg Bool.false_ne_true, getSiblingIndex_odd even]
    omega

/-- Away from the 32-bit limit the depth is the least positive one whose full
tree has room for the leaves. -/
theorem treeDepth_eq {leavesCount depth : ℕ} (positive : 0 < depth) (bounded : depth < 32)
    (fits : leavesCount ≤ 2 ^ depth) (least : ∀ i, 0 < i → i < depth → 2 ^ i < leavesCount) :
    treeDepth leavesCount = depth := by
  have unwrapped : ∀ i, i < 32 → 2 ^ i % 2 ^ 32 = 2 ^ i := fun i below =>
    Nat.mod_eq_of_lt (Nat.pow_lt_pow_right (by decide) below)
  have found : (List.range' 1 32).find? (fun i => leavesCount ≤ 2 ^ i % 2 ^ 32) = some depth := by
    rw [List.find?_range'_eq_some]
    refine ⟨?_, ?_, ?_⟩
    · simp only [unwrapped depth bounded, decide_eq_true_eq]
      exact fits
    · simp only [List.mem_range'_1]
      omega
    · intro i from1 below
      have wide := least i from1 below
      simp only [unwrapped i (by omega), Bool.not_eq_true', decide_eq_false_iff_not, not_le]
      exact wide
  simp only [treeDepth, found, Option.getD_some]

end SmartContracts.RsMerkle
