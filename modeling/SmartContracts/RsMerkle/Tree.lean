import SmartContracts.RsMerkle.Climb

namespace SmartContracts.RsMerkle

open SmartContracts.Chain SmartContracts.Crypto SmartContracts.Data SmartContracts.Data.HashTree

/-! # Building a Merkle tree

`MerkleTree` of `rs_merkle`, as far as a tree is built from a list of leaves and
asked for proofs.  Its layers are the levels over the list.
-/

structure MerkleTree where
  -- the layers of the current working tree, the leaves first
  layerTuples : List Layer
  uncommittedLeaves : List Hash

/-! ## Merging layers into a tree -/

def contains (layers : List Layer) (layerIndex nodeIndex : ℕ) : Bool :=
  match layers[layerIndex]? with
  | some layer => layer.any fun node => node.1 = nodeIndex
  | none => false

def upsertLayer (layers : List Layer) (layerIndex : ℕ) (newLayer : Layer) : List Layer :=
  if layerIndex < layers.length then layers.set layerIndex newLayer else layers ++ [newLayer]

def mergeUnverified (layers other : List Layer) : List Layer :=
  -- the difference is unsigned, so it is positive unless the sizes are equal
  let combinedTreeSize := if other.length ≠ layers.length then other.length else layers.length
  (List.range combinedTreeSize).foldl (fun layers layerIndex =>
    let own := layers[layerIndex]?.getD []
    let filtered := own.filter fun node => ¬ contains other layerIndex node.1
    upsertLayer layers layerIndex (sortLayer (filtered ++ other[layerIndex]?.getD []))) layers

namespace MerkleTree

def new : MerkleTree := { layerTuples := [], uncommittedLeaves := [] }

def leaves (tree : MerkleTree) : Option (List Hash) := do
  let first ← tree.layerTuples.head?
  return first.map Prod.snd

def leavesLen (tree : MerkleTree) : ℕ :=
  match tree.layerTuples.head? with
  | some leavesTuples => leavesTuples.length
  | none => 0

def root (tree : MerkleTree) : Option Hash := treeRoot tree.layerTuples

/-- The siblings that exist, layer by layer. -/
def helperNodeTuples : List Layer → List ℕ → List Layer
  | [], _ => []
  | treeLayer :: above, currentLayerIndices =>
      let helperIndices := difference (siblingIndices currentLayerIndices) currentLayerIndices
      helperIndices.filterMap (fun index => treeLayer[index]?) ::
        helperNodeTuples above (parentIndices currentLayerIndices)

def helperNodes (tree : MerkleTree) (leafIndices : List ℕ) : List Hash :=
  (helperNodeTuples tree.layerTuples leafIndices).flatMap fun layer => layer.map Prod.snd

def proof (tree : MerkleTree) (leafIndices : List ℕ) : MerkleProof :=
  ⟨tree.helperNodes leafIndices⟩

def append (tree : MerkleTree) (leaves : List Hash) : MerkleTree :=
  { tree with uncommittedLeaves := tree.uncommittedLeaves ++ leaves }

section Commit

variable (hash : Bytes → Hash)

def uncommittedDiff (tree : MerkleTree) : Option (List Layer) :=
  if tree.uncommittedLeaves = [] then none
  else
    let committedLeavesCount := tree.leavesLen
    let shadowIndices :=
      (List.range tree.uncommittedLeaves.length).map (committedLeavesCount + ·)
    let shadowNodeTuples := shadowIndices.zip tree.uncommittedLeaves
    let leavesInNewTree := tree.leavesLen + tree.uncommittedLeaves.length
    let partialTreeTuples :=
      match helperNodeTuples tree.layerTuples shadowIndices with
      | firstLayer :: rest => sortLayer (firstLayer ++ shadowNodeTuples) :: rest
      | [] => [shadowNodeTuples]
    (buildTree hash (treeDepth leavesInNewTree) partialTreeTuples []).toOption

def commit (tree : MerkleTree) : MerkleTree :=
  match tree.uncommittedDiff hash with
  | some diff =>
      { layerTuples := mergeUnverified tree.layerTuples diff, uncommittedLeaves := [] }
  | none => tree

def fromLeaves (leaves : List Hash) : MerkleTree := (new.append leaves).commit hash

end Commit

end MerkleTree

/-! ## Layers are levels -/

def combineNodes (hash : Bytes → Hash) (left right : Hash) : Hash := hash (joinHashes left right)

/-- The nodes of a layer next to their positions. -/
def numbered (nodes : List Hash) : Layer := (List.range nodes.length).zip nodes

section Levels

variable {hash : Bytes → Hash}

theorem numbered_fst (nodes : List Hash) :
    (numbered nodes).map Prod.fst = List.range nodes.length := by
  simp [numbered, List.map_fst_zip]

theorem numbered_snd (nodes : List Hash) : (numbered nodes).map Prod.snd = nodes := by
  simp [numbered, List.map_snd_zip]

theorem getElem?_numbered (nodes : List Hash) (index : ℕ) :
    (numbered nodes)[index]? = nodes[index]?.map fun node => (index, node) := by
  have size : (numbered nodes).length = nodes.length := by simp [numbered]
  rcases Nat.lt_or_ge index nodes.length with inside | outside
  · rw [List.getElem?_eq_getElem inside, List.getElem?_eq_getElem (size ▸ inside)]
    simp [numbered]
  · rw [List.getElem?_eq_none outside, List.getElem?_eq_none (size ▸ outside)]
    rfl

theorem sortLayer_numbered (nodes : List Hash) : sortLayer (numbered nodes) = numbered nodes := by
  have ascending : (List.range nodes.length).Pairwise (· ≤ ·) :=
    List.pairwise_lt_range.imp Nat.le_of_lt
  rw [← numbered_fst, List.pairwise_map] at ascending
  exact ascending.insertionSort_eq

theorem eraseReps_halves (start count : ℕ) (kept : List ℕ) :
    List.eraseRepsBy.loop (· == ·) (start / 2) ((List.range' (start + 1) count).map (· / 2)) kept =
      kept.reverse ++ List.range' (start / 2) ((start + count) / 2 - start / 2 + 1) := by
  induction count generalizing start kept with
  | zero => simp [List.eraseRepsBy.loop]
  | succ count ih =>
      rw [List.range'_succ, List.map_cons, List.eraseRepsBy.loop]
      have next := fun kept => ih (start + 1) kept
      have sum : start + (count + 1) = start + 1 + count := by omega
      rw [sum]
      by_cases even : start % 2 = 0
      · have same : (start + 1) / 2 = start / 2 := by omega
        rw [same] at next ⊢
        simp [next]
      · have later : (start + 1) / 2 = start / 2 + 1 := by omega
        have more : (start + 1 + count) / 2 - start / 2 + 1 =
            (start + 1 + count) / 2 - (start / 2 + 1) + 1 + 1 := by omega
        have apart : (start / 2 == start / 2 + 1) = false := by simp
        rw [later] at next ⊢
        simp only [apart, next, more, List.range'_succ, List.reverse_cons, List.append_assoc,
          List.singleton_append]

theorem parentIndices_range (count : ℕ) :
    parentIndices (List.range count) = List.range ((count + 1) / 2) := by
  have halves : (List.range count).map parentIndex = (List.range count).map (· / 2) :=
    List.map_congr_left fun index _ => parentIndex_eq index
  rw [parentIndices, halves]
  cases count with
  | zero => rfl
  | succ count =>
      have more : count / 2 + 1 = (count + 1 + 1) / 2 := by omega
      rw [List.range_eq_range', List.range'_succ, List.map_cons, List.eraseReps,
        List.eraseRepsBy, eraseReps_halves]
      simp [List.range_eq_range', more]

theorem parentNodes_range (nodes : List Hash) {start pairs : ℕ}
    (covered : start + pairs = (nodes.length + 1) / 2) :
    parentNodes hash nodes start (List.range' start pairs) =
      .ok ((List.range' start pairs).zip
        ((pairUp (combineNodes hash) nodes).drop start)) := by
  induction pairs generalizing start with
  | zero => rfl
  | succ pairs ih =>
      have inside : 2 * start < nodes.length := by omega
      have found : nodes[2 * start]? = some nodes[2 * start] := List.getElem?_eq_getElem inside
      have paired := @getElem?_pairUp _ (combineNodes hash) nodes start
      rw [found, Option.map_some] at paired
      obtain ⟨within, value⟩ := List.getElem?_eq_some_iff.mp paired
      have above := @ih (start + 1) (by omega)
      rw [List.range'_succ, parentNodes, Nat.mul_comm start 2, found]
      simp only [above]
      rw [List.drop_eq_getElem_cons within, value, List.zip_cons_cons]
      cases nodes[2 * start + 1]? <;> rfl

theorem buildTree_levels (remaining : ℕ) (nodes : List Hash) :
    buildTree hash remaining [] (numbered nodes) =
      .ok ((List.range (remaining + 1)).map fun above =>
        numbered (level (combineNodes hash) nodes above)) := by
  induction remaining generalizing nodes with
  | zero => rfl
  | succ remaining ih =>
      have parents : parentNodes hash nodes 0 (List.range ((nodes.length + 1) / 2)) =
          .ok (numbered (pairUp (combineNodes hash) nodes)) := by
        rw [List.range_eq_range', parentNodes_range nodes (Nat.zero_add _), numbered,
          length_pairUp, List.range_eq_range', List.drop_zero]
      rw [buildTree, List.head?_nil, Option.getD_none, List.append_nil, sortLayer_numbered,
        numbered_snd, numbered_fst, parentIndices_range, parents]
      have above := ih (pairUp (combineNodes hash) nodes)
      rw [List.range_succ_eq_map, List.map_cons, List.map_map]
      change (do
        let tree ← buildTree hash remaining [] (numbered (pairUp (combineNodes hash) nodes))
        .ok (numbered nodes :: tree)) = _
      rw [above]
      rfl

/-- Merging into a tree without layers sorts the layers. -/
theorem mergeUnverified_nil (other : List Layer) :
    mergeUnverified [] other = other.map sortLayer := by
  have size : (if other.length ≠ ([] : List Layer).length then other.length
      else ([] : List Layer).length) = other.length := by
    split
    · rfl
    · rename_i same
      exact (not_not.mp same).symm
  have merged : ∀ count ≤ other.length, (List.range count).foldl (fun layers layerIndex =>
      let own := layers[layerIndex]?.getD []
      let filtered := own.filter fun node => ¬ contains other layerIndex node.1
      upsertLayer layers layerIndex (sortLayer (filtered ++ other[layerIndex]?.getD []))) [] =
        (other.take count).map sortLayer := by
    intro count within
    induction count with
    | zero => rfl
    | succ count ih =>
        have inside : count < other.length := within
        have length : ((other.take count).map sortLayer).length = count := by
          simp [Nat.le_of_lt inside]
        have fresh : ((other.take count).map sortLayer)[count]? = none :=
          List.getElem?_eq_none (Nat.le_of_eq length)
        rw [List.range_succ, List.foldl_append, ih (Nat.le_of_lt inside), List.foldl_cons,
          List.foldl_nil, List.take_succ_eq_append_getElem inside, List.map_append]
        simp only [fresh, Option.getD_none, List.filter_nil, List.nil_append, upsertLayer,
          length, Nat.lt_irrefl, if_false, List.getElem?_eq_getElem inside, Option.getD_some,
          List.map_cons, List.map_nil]
  rw [mergeUnverified, size, merged other.length le_rfl, List.take_length]

theorem divCeil_two (count : ℕ) : divCeil count 2 = (count + 1) / 2 := by
  unfold divCeil
  split <;> omega

theorem layerTuples_fromLeaves {leaves : List Hash} (nonempty : leaves ≠ [])
    (tall : 0 < treeDepth leaves.length) :
    (MerkleTree.fromLeaves hash leaves).layerTuples =
      (List.range (treeDepth leaves.length + 1)).map fun above =>
        numbered (level (combineNodes hash) leaves above) := by
  obtain ⟨remaining, depth⟩ := Nat.exists_eq_add_of_lt tall
  rw [zero_add] at depth
  have shadow : ((List.range leaves.length).map fun index => index).zip leaves =
      numbered leaves := by
    rw [List.map_id', numbered]
  have first : buildTree hash (remaining + 1) [numbered leaves] [] =
      buildTree hash (remaining + 1) [] (numbered leaves) := by
    simp [buildTree]
  have diff : MerkleTree.uncommittedDiff hash (MerkleTree.new.append leaves) =
      some ((List.range (treeDepth leaves.length + 1)).map fun above =>
        numbered (level (combineNodes hash) leaves above)) := by
    have built := @buildTree_levels hash (remaining + 1) leaves
    rw [← first, ← depth] at built
    simp only [MerkleTree.uncommittedDiff, MerkleTree.append, MerkleTree.new,
      MerkleTree.leavesLen, MerkleTree.helperNodeTuples, List.nil_append, nonempty, if_false,
      List.head?_nil, shadow, zero_add, built]
    rfl
  have sorted : ∀ above, sortLayer (numbered (level (combineNodes hash) leaves above)) =
      numbered (level (combineNodes hash) leaves above) := fun _ => sortLayer_numbered _
  rw [MerkleTree.fromLeaves, MerkleTree.commit, diff]
  change mergeUnverified [] _ = _
  rw [mergeUnverified_nil, List.map_map]
  exact List.map_congr_left fun above _ => sorted above

theorem fits_treeDepth {count : ℕ} (fits : count < 2 ^ 31) :
    0 < treeDepth count ∧ count ≤ 2 ^ treeDepth count := by
  have enough : ∃ depth, 0 < depth ∧ count ≤ 2 ^ depth := ⟨31, by decide, Nat.le_of_lt fits⟩
  obtain ⟨positive, covered⟩ := Nat.find_spec enough
  have bounded : Nat.find enough ≤ 31 := Nat.find_min' enough ⟨by decide, Nat.le_of_lt fits⟩
  have depth : treeDepth count = Nat.find enough := by
    refine treeDepth_eq positive (Nat.lt_succ_of_le bounded) covered fun i from1 below => ?_
    have short := Nat.find_min enough below
    omega
  rw [depth]
  exact ⟨positive, covered⟩

/-! ## Proofs of single leaves -/

theorem layers_succ (nodes : List Hash) (remaining : ℕ) :
    ((List.range (remaining + 1 + 1)).map fun above =>
      numbered (level (combineNodes hash) nodes above)) =
    numbered nodes :: (List.range (remaining + 1)).map fun above =>
      numbered (level (combineNodes hash) (pairUp (combineNodes hash) nodes) above) := by
  rw [List.range_succ_eq_map, List.map_cons, List.map_map]
  rfl

/-- The prover finds no sibling just where the verifier asks for none. -/
theorem getElem?_sibling_eq_none {nodes : List Hash} {index : ℕ} (inside : index < nodes.length) :
    nodes[getSiblingIndex index]? = none ↔ Alone nodes.length index := by
  rw [List.getElem?_eq_none_iff, Alone]
  by_cases even : index % 2 = 0
  · rw [getSiblingIndex_even even]
    omega
  · rw [getSiblingIndex_odd even]
    omega

theorem getElem?_parent {nodes : List Hash} {index : ℕ} {node : Hash}
    (found : nodes[index]? = some node) :
    (pairUp (combineNodes hash) nodes)[index / 2]? =
      match nodes[getSiblingIndex index]? with
      | some sibling => some (hash (joined joinHashes node (siblingSide index, sibling)))
      | none => some node := by
  rw [getElem?_pairUp]
  by_cases even : index % 2 = 0
  · have own : 2 * (index / 2) = index := by omega
    rw [own, found, getSiblingIndex_even even, siblingSide_even even]
    cases nodes[index + 1]? <;> rfl
  · have own : 2 * (index / 2) + 1 = index := by omega
    have before : 2 * (index / 2) = index - 1 := by omega
    have inside := (List.getElem?_eq_some_iff.mp found).1
    have present : index - 1 < nodes.length := by omega
    rw [own, found, before, getSiblingIndex_odd even, siblingSide_odd even,
      List.getElem?_eq_getElem present]
    rfl

theorem pathOf_helperNodes {remaining index : ℕ} {nodes : List Hash} {node : Hash}
    (found : nodes[index]? = some node) :
    ∃ path, pathOf remaining nodes.length index
        ((MerkleTree.helperNodeTuples ((List.range (remaining + 1)).map fun above =>
          numbered (level (combineNodes hash) nodes above)) [index]).flatMap
            fun layer => layer.map Prod.snd) = some path ∧
      (level (combineNodes hash) nodes remaining)[index / 2 ^ remaining]? =
        some (climb hash joinHashes node path) := by
  induction remaining generalizing nodes index node with
  | zero => exact ⟨[], rfl, by simpa [level, climb] using found⟩
  | succ remaining ih =>
      have inside := (List.getElem?_eq_some_iff.mp found).1
      have parent := @getElem?_parent hash _ _ _ found
      have size : divCeil nodes.length 2 = (pairUp (combineNodes hash) nodes).length := by
        rw [divCeil_two, length_pairUp]
      rw [layers_succ, MerkleTree.helperNodeTuples, difference_sibling, parentIndices_single,
        pathOf_succ, size, List.flatMap_cons, level, ← halved_pow]
      cases sibling : nodes[getSiblingIndex index]? with
      | none =>
          have alone := (getElem?_sibling_eq_none inside).mp sibling
          simp only [sibling] at parent
          obtain ⟨path, reads, climbs⟩ := ih parent
          refine ⟨path, ?_, climbs⟩
          simp only [if_pos alone, List.filterMap_cons, List.filterMap_nil, getElem?_numbered,
            sibling, Option.map_none, List.map_nil, List.nil_append]
          exact reads
      | some sister =>
          have paired : ¬ Alone nodes.length index := fun alone => by
            cases sibling.symm.trans ((getElem?_sibling_eq_none inside).mpr alone)
          simp only [sibling] at parent
          obtain ⟨path, reads, climbs⟩ := ih parent
          refine ⟨(siblingSide index, sister) :: path, ?_, climbs⟩
          simp only [if_neg paired, List.filterMap_cons, List.filterMap_nil, getElem?_numbered,
            sibling, Option.map_some, List.map_cons, List.map_nil, List.cons_append,
            List.nil_append]
          rw [reads]
          rfl

/-! ## The tree over a list of leaves -/

section FromLeaves

variable {leaves : List Hash} (nonempty : leaves ≠ []) (fits : leaves.length < 2 ^ 31)

include nonempty fits

theorem leaves_fromLeaves : (MerkleTree.fromLeaves hash leaves).leaves = some leaves := by
  have tall := (fits_treeDepth fits).1
  rw [MerkleTree.leaves, layerTuples_fromLeaves nonempty tall, List.range_succ_eq_map,
    List.map_cons]
  simp [level, numbered_snd]

/-- The root is the one node of the last level. -/
theorem root_fromLeaves : ∃ root,
    level (combineNodes hash) leaves (treeDepth leaves.length) = [root] ∧
      (MerkleTree.fromLeaves hash leaves).root = some root := by
  obtain ⟨tall, covered⟩ := fits_treeDepth fits
  have single := @length_level _ (combineNodes hash) leaves nonempty _ covered
  obtain ⟨root, top⟩ := List.length_eq_one_iff.mp single
  refine ⟨root, top, ?_⟩
  rw [MerkleTree.root, layerTuples_fromLeaves nonempty tall, List.range_succ, List.map_append,
    List.map_singleton, top, treeRoot, List.getLast?_concat]
  rfl

/-- The verifier gets from a proof of the prover to the root of the prover. -/
theorem root_proof_fromLeaves {index : ℕ} {leaf root : Hash} (found : leaves[index]? = some leaf)
    (top : level (combineNodes hash) leaves (treeDepth leaves.length) = [root]) :
    ((MerkleTree.fromLeaves hash leaves).proof [index]).root hash [index] [leaf] leaves.length =
      some (.ok root) := by
  obtain ⟨tall, covered⟩ := fits_treeDepth fits
  have inside := (List.getElem?_eq_some_iff.mp found).1
  have first : index / 2 ^ treeDepth leaves.length = 0 :=
    Nat.div_eq_of_lt (Nat.lt_of_lt_of_le inside covered)
  obtain ⟨path, reads, climbs⟩ :=
    @pathOf_helperNodes hash (treeDepth leaves.length) _ _ _ found
  rw [first, top] at climbs
  rw [root_single _ _ _ _ tall, MerkleTree.proof, MerkleTree.helperNodes,
    layerTuples_fromLeaves nonempty tall, reads]
  simpa using climbs.symm

end FromLeaves

end Levels

end SmartContracts.RsMerkle
