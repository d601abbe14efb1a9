import SmartContracts.Data.HashTree
import SmartContracts.RsMerkle.Proof

namespace SmartContracts.RsMerkle

open SmartContracts.Chain SmartContracts.Crypto SmartContracts.Data SmartContracts.Data.HashTree

/-! # The path of a single leaf

For one leaf the general algorithm climbs from the leaf to the root.  It takes a
hash of the proof in every layer but those in which the position is the last one
of an odd number, and passes the node up there.
-/

def joinHashes (left right : Hash) : Bytes := left.toList ++ right.toList

theorem joinHashes_injective (a b c d : Hash) (same : joinHashes a b = joinHashes c d) :
    a = c ∧ b = d := by
  have size : a.toList.length = c.toList.length := by simp
  obtain ⟨left, right⟩ := List.append_inj same size
  exact ⟨Vector.toList_inj.mp left, Vector.toList_inj.mp right⟩

/-- The position is the last in a layer with an odd number of nodes. -/
def Alone (count index : ℕ) : Prop := count % 2 ≠ 0 ∧ index = count - 1

instance decidableAlone (count index : ℕ) : Decidable (Alone count index) :=
  instDecidableAnd

def siblingSide (index : ℕ) : Side := if isLeftIndex index then .right else .left

theorem siblingSide_even {index : ℕ} (even : index % 2 = 0) : siblingSide index = .right := by
  have left : isLeftIndex index = true := decide_eq_true even
  rw [siblingSide, if_pos left]

theorem siblingSide_odd {index : ℕ} (odd : ¬ index % 2 = 0) : siblingSide index = .left := by
  have right : isLeftIndex index = false := decide_eq_false odd
  rw [siblingSide, right, if_neg Bool.false_ne_true]

/-- The hashes the proof is read as, from the leaf to the root. -/
def pathOf : ℕ → ℕ → ℕ → List Hash → Option (List (Side × Hash))
  | 0, _, _, _ => some []
  | remaining + 1, count, index, hashes =>
      if Alone count index then pathOf remaining (divCeil count 2) (index / 2) hashes
      else
        match hashes with
        | [] => none
        | sibling :: rest =>
            (pathOf remaining (divCeil count 2) (index / 2) rest).map
              ((siblingSide index, sibling) :: ·)

theorem pathOf_succ {remaining count index : ℕ} {hashes : List Hash} :
    pathOf (remaining + 1) count index hashes =
      if Alone count index then pathOf remaining (divCeil count 2) (index / 2) hashes
      else
        match hashes with
        | [] => none
        | sibling :: rest =>
            (pathOf remaining (divCeil count 2) (index / 2) rest).map
              ((siblingSide index, sibling) :: ·) := by
  cases hashes <;> rfl

/-! ## The positions a proof supplies -/

theorem getSiblingIndex_ne (index : ℕ) : getSiblingIndex index ≠ index := by
  by_cases even : index % 2 = 0
  · rw [getSiblingIndex_even even]
    exact Nat.succ_ne_self index
  · rw [getSiblingIndex_odd even]
    omega

theorem difference_sibling (index : ℕ) :
    difference (siblingIndices [index]) [index] = [getSiblingIndex index] := by
  simp [difference, siblingIndices, getSiblingIndex_ne]

theorem parentIndices_single (index : ℕ) : parentIndices [index] = [index / 2] := by
  simp [parentIndices, parentIndex_eq, List.eraseReps, List.eraseRepsBy, List.eraseRepsBy.loop]

section Uneven

variable {remaining start count layer : ℕ}

theorem lookup_unevenLayers_before (before : layer < start) :
    (unevenLayers.layers remaining start count).lookup layer = none := by
  induction remaining generalizing start count with
  | zero => rfl
  | succ remaining ih =>
      have above := @ih (start + 1) (divCeil count 2) (by omega)
      have other : (layer == start) = false := by simp [Nat.ne_of_lt before]
      rw [unevenLayers.layers]
      split
      · rw [List.lookup_cons, other]
        exact above
      · exact above

theorem lookup_unevenLayers_here :
    (unevenLayers.layers (remaining + 1) start count).lookup start =
      if count % 2 ≠ 0 then some count else none := by
  rw [unevenLayers.layers]
  split
  · simp
  · exact lookup_unevenLayers_before (Nat.lt_succ_self start)

theorem lookup_unevenLayers_above (above : start < layer) :
    (unevenLayers.layers (remaining + 1) start count).lookup layer =
      (unevenLayers.layers remaining (start + 1) (divCeil count 2)).lookup layer := by
  have other : (layer == start) = false := by simp [Nat.ne_of_gt above]
  rw [unevenLayers.layers]
  split
  · rw [List.lookup_cons, other]
  · rfl

end Uneven

def neededLayers : ℕ → ℕ → ℕ → List (List ℕ)
  | 0, _, _ => []
  | remaining + 1, count, index =>
      (if Alone count index then [] else [getSiblingIndex index]) ::
        neededLayers remaining (divCeil count 2) (index / 2)

theorem proofIndices_layers_single {uneven : List (ℕ × ℕ)} {remaining start count : ℕ}
    (agrees : ∀ layer ≥ start, uneven.lookup layer =
      (unevenLayers.layers remaining start count).lookup layer) (index : ℕ) :
    proofIndicesByLayers.layers uneven remaining start [index] =
      neededLayers remaining count index := by
  induction remaining generalizing start count index with
  | zero => rfl
  | succ remaining ih =>
      have rest := @ih (start + 1) (divCeil count 2) (fun layer above => by
        rw [agrees layer (by omega), lookup_unevenLayers_above (by omega)]) (index / 2)
      rw [proofIndicesByLayers.layers, neededLayers, parentIndices_single, rest,
        agrees start le_rfl, lookup_unevenLayers_here]
      congr 1
      by_cases odd : count % 2 ≠ 0
      · rw [if_pos odd]
        by_cases last : index = count - 1
        · rw [if_pos ⟨odd, last⟩]
          simp [last, difference, siblingIndices]
        · have paired : ¬ Alone count index := fun alone => last alone.2
          rw [if_neg paired]
          simp only [List.getLast?_singleton, if_neg last]
          exact difference_sibling index
      · have paired : ¬ Alone count index := fun alone => odd alone.1
        rw [if_neg odd, if_neg paired]
        exact difference_sibling index

theorem proofIndicesByLayers_single (index count : ℕ) :
    proofIndicesByLayers [index] count = neededLayers (treeDepth count) count index :=
  proofIndices_layers_single (fun _ _ => rfl) index

/-! ## Building the tree over the path -/

section Building

variable {hash : Bytes → Hash}

theorem buildTree_alone (remaining index : ℕ) (node : Hash) (layers : List Layer) :
    buildTree hash (remaining + 1) ([] :: layers) [(index, node)] = (do
      let tree ← buildTree hash remaining layers [(index / 2, node)]
      .ok ([(index, node)] :: tree)) := by
  simp [buildTree, sortLayer, parentIndices_single, parentNodes, concatAndHash]
  rfl

/-- Two nodes of one parent are hashed in their order in the layer. -/
theorem buildTree_pair {first second parent : ℕ} (firstParent : first / 2 = parent)
    (secondParent : second / 2 = parent) (remaining : ℕ) (left right : Hash)
    {layers : List Layer} {helpers current : Layer}
    (sorted : sortLayer (current ++ helpers) = [(first, left), (second, right)]) :
    buildTree hash (remaining + 1) (helpers :: layers) current = (do
      let tree ← buildTree hash remaining layers [(parent, hash (joinHashes left right))]
      .ok ([(first, left), (second, right)] :: tree)) := by
  have above : parentIndices [first, second] = [parent] := by
    simp [parentIndices, parentIndex_eq, firstParent, secondParent, List.eraseReps,
      List.eraseRepsBy, List.eraseRepsBy.loop]
  simp [buildTree, sorted, above, parentNodes, concatAndHash, joinHashes]
  rfl

theorem buildTree_sibling (remaining index : ℕ) (node sibling : Hash) (layers : List Layer) :
    ∃ layer, buildTree hash (remaining + 1) ([(getSiblingIndex index, sibling)] :: layers)
        [(index, node)] = (do
      let tree ← buildTree hash remaining layers
        [(index / 2, hash (joined joinHashes node (siblingSide index, sibling)))]
      .ok (layer :: tree)) := by
  by_cases even : index % 2 = 0
  · have sorted : sortLayer ([(index, node)] ++ [(getSiblingIndex index, sibling)]) =
        [(index, node), (index + 1, sibling)] := by
      simp [sortLayer, getSiblingIndex_even even]
    rw [siblingSide_even even]
    exact ⟨_, buildTree_pair rfl (by omega) remaining node sibling sorted⟩
  · have sorted : sortLayer ([(index, node)] ++ [(getSiblingIndex index, sibling)]) =
        [(index - 1, sibling), (index, node)] := by
      have lower : ¬ index ≤ index - 1 := by omega
      simp [sortLayer, getSiblingIndex_odd even, lower]
    rw [siblingSide_odd even]
    exact ⟨_, buildTree_pair (by omega) rfl remaining sibling node sorted⟩

theorem spliceByLayers_needed {remaining count index : ℕ} {hashes : List Hash} :
    spliceByLayers (neededLayers (remaining + 1) count index) hashes =
      if Alone count index then
        (spliceByLayers (neededLayers remaining (divCeil count 2) (index / 2)) hashes).map
          ([] :: ·)
      else
        match hashes with
        | [] => none
        | sibling :: rest =>
            (spliceByLayers (neededLayers remaining (divCeil count 2) (index / 2)) rest).map
              ([(getSiblingIndex index, sibling)] :: ·) := by
  rw [neededLayers, spliceByLayers]
  split
  · simp [Option.map_eq_bind]
  · cases hashes with
    | nil => rfl
    | cons sibling rest => simp [Option.map_eq_bind]

theorem halved_pow (index remaining : ℕ) :
    index / 2 / 2 ^ remaining = index / 2 ^ (remaining + 1) := by
  rw [Nat.div_div_eq_div_mul, pow_succ']

/-- The tree over a path has the climbed node alone in its last layer. -/
theorem buildTree_path {remaining count index : ℕ} {node : Hash} {hashes : List Hash} :
    (pathOf remaining count index hashes = none ∧
      spliceByLayers (neededLayers remaining count index) hashes = none) ∨
    ∃ path layers tree, pathOf remaining count index hashes = some path ∧
      spliceByLayers (neededLayers remaining count index) hashes = some layers ∧
      buildTree hash remaining layers [(index, node)] = .ok tree ∧
      tree.getLast? = some [(index / 2 ^ remaining, climb hash joinHashes node path)] := by
  induction remaining generalizing count index node hashes with
  | zero => exact .inr ⟨[], [], _, rfl, rfl, rfl, by simp [climb]⟩
  | succ remaining ih =>
      rw [spliceByLayers_needed, pathOf_succ]
      by_cases alone : Alone count index
      · rw [if_pos alone, if_pos alone]
        rcases @ih (divCeil count 2) (index / 2) node hashes with
          ⟨short, spliced⟩ | ⟨path, layers, tree, found, spliced, built, last⟩
        · exact .inl ⟨short, by rw [spliced]; rfl⟩
        · refine .inr ⟨path, [] :: layers, [(index, node)] :: tree, found, ?_, ?_, ?_⟩
          · rw [spliced]
            rfl
          · rw [buildTree_alone, built]
            rfl
          · rw [List.getLast?_cons, last, halved_pow]
            rfl
      · rw [if_neg alone, if_neg alone]
        cases hashes with
        | nil => exact .inl ⟨rfl, rfl⟩
        | cons sibling rest =>
            rcases @ih (divCeil count 2) (index / 2)
              (hash (joined joinHashes node (siblingSide index, sibling))) rest with
              ⟨short, spliced⟩ | ⟨path, layers, tree, found, spliced, built, last⟩
            · refine .inl ⟨?_, ?_⟩
              · simp only [short, Option.map_none]
              · simp only [spliced, Option.map_none]
            · obtain ⟨layer, step⟩ :=
                @buildTree_sibling hash remaining index node sibling layers
              refine .inr ⟨(siblingSide index, sibling) :: path,
                [(getSiblingIndex index, sibling)] :: layers, layer :: tree, ?_, ?_, ?_, ?_⟩
              · simp only [found, Option.map_some]
              · simp only [spliced, Option.map_some]
              · rw [step, built]
                rfl
              · rw [List.getLast?_cons, last, halved_pow]
                rfl

/-- The leaf may be put into the first layer or be there from the start. -/
theorem sortLayer_sibling (index : ℕ) (node sibling : Hash) :
    sortLayer (sortLayer ([(getSiblingIndex index, sibling)] ++ [(index, node)])) =
      sortLayer ([(index, node)] ++ [(getSiblingIndex index, sibling)]) := by
  by_cases even : index % 2 = 0
  · simp [sortLayer, getSiblingIndex_even even]
  · have lower : ¬ index ≤ index - 1 := by omega
    simp [sortLayer, getSiblingIndex_odd even, lower]

theorem buildTree_leaf {remaining count index : ℕ} {node : Hash} {hashes : List Hash}
    {layers : List Layer}
    (spliced : spliceByLayers (neededLayers (remaining + 1) count index) hashes = some layers) :
    ∃ first rest, layers = first :: rest ∧
      buildTree hash (remaining + 1) (sortLayer (first ++ [(index, node)]) :: rest) [] =
        buildTree hash (remaining + 1) layers [(index, node)] := by
  rw [spliceByLayers_needed] at spliced
  split at spliced
  · obtain ⟨rest, _, rfl⟩ := Option.map_eq_some_iff.mp spliced
    exact ⟨[], rest, rfl, by simp [buildTree, sortLayer]⟩
  · cases hashes with
    | nil => cases spliced
    | cons sibling others =>
        obtain ⟨rest, _, rfl⟩ := Option.map_eq_some_iff.mp spliced
        refine ⟨_, rest, rfl, ?_⟩
        simp only [buildTree, List.head?_cons, Option.getD_some, List.nil_append,
          List.tail_cons, sortLayer_sibling]

/-- With a single leaf the root is the node that the path of the proof leads to. -/
theorem root_single (proof : MerkleProof) (index count : ℕ) (leaf : Hash)
    (tall : 0 < treeDepth count) :
    proof.root hash [index] [leaf] count =
      (pathOf (treeDepth count) count index proof.proofHashes).map fun path =>
        .ok (climb hash joinHashes leaf path) := by
  have single : sortLayer ([index].zip [leaf]) = [(index, leaf)] := rfl
  obtain ⟨remaining, depth⟩ := Nat.exists_eq_add_of_lt tall
  rw [zero_add] at depth
  simp only [MerkleProof.root, List.length_singleton, ne_eq, not_true_eq_false, if_false, single,
    proofIndicesByLayers_single, depth]
  rcases @buildTree_path hash (remaining + 1) count index leaf proof.proofHashes with
    ⟨short, spliced⟩ | ⟨path, layers, tree, found, spliced, built, last⟩
  · rw [short, spliced]
    rfl
  · obtain ⟨first, rest, rfl, same⟩ := @buildTree_leaf hash _ _ _ leaf _ _ spliced
    rw [found, spliced]
    simp [same, built, treeRoot, last]

end Building

end SmartContracts.RsMerkle
