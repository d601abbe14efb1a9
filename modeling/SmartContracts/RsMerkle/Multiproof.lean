import SmartContracts.Crypto.Residues
import SmartContracts.RsMerkle.Partial

namespace SmartContracts.RsMerkle

open SmartContracts.Chain SmartContracts.Crypto SmartContracts.Data SmartContracts.Data.HashTree

/-! # Proofs of several leaves

One proof covers any leaves of a tree.  The prover leaves out every node that
the verifier can compute, and both go through the layers in the same order, so
the hashes need no positions of their own.
-/

variable {hash : Bytes → Hash}

/-- The positions to help with, layer by layer. -/
def neededByLayers : ℕ → ℕ → List ℕ → List (List ℕ)
  | 0, _, _ => []
  | remaining + 1, count, positions =>
      needed count positions :: neededByLayers remaining (divCeil count 2) (halves positions)

section Levels

variable (hash)

/-- The helper nodes as they are in the tree. -/
def helperLayers : ℕ → List Hash → List ℕ → List Layer
  | 0, _, _ => []
  | remaining + 1, nodes, positions =>
      pick (needed nodes.length positions) (valueOf nodes) ::
        helperLayers remaining (pairUp (combineNodes hash) nodes) (halves positions)

/-- The part of the tree over some of its leaves. -/
def partialLayers : ℕ → List Hash → List ℕ → List Layer
  | 0, nodes, positions => [pick positions (valueOf nodes)]
  | remaining + 1, nodes, positions =>
      pick (family nodes.length (halves positions)) (valueOf nodes) ::
        partialLayers remaining (pairUp (combineNodes hash) nodes) (halves positions)

end Levels

section Halving

variable {nodes : List Hash} {positions : List ℕ} (inside : ∀ i ∈ positions, i < nodes.length)

include inside

theorem halves_inside_pairUp :
    ∀ parent ∈ halves positions, parent < (pairUp (combineNodes hash) nodes).length := by
  intro parent member
  have bound := halves_inside inside parent member
  rw [length_pairUp]
  omega

theorem pick_above : pick (halves positions) (above (combineNodes hash) nodes.length (valueOf nodes)) =
    pick (halves positions) (valueOf (pairUp (combineNodes hash) nodes)) :=
  pick_congr fun parent member => (valueOf_pairUp (halves_inside inside parent member)).symm

end Halving

/-! ## The prover and the verifier -/

/-- With the nodes of the tree for helpers the part of the tree is built. -/
theorem buildTree_partialLayers {remaining : ℕ} {nodes : List Hash} {positions : List ℕ}
    (ascending : Ascending positions) (inside : ∀ i ∈ positions, i < nodes.length) :
    buildTree hash remaining (helperLayers hash remaining nodes positions)
      (pick positions (valueOf nodes)) = .ok (partialLayers hash remaining nodes positions) := by
  induction remaining generalizing nodes positions with
  | zero => rfl
  | succ remaining ih =>
      rw [helperLayers, buildTree_step ascending inside, mixed_self, pick_above inside,
        ih (halves_ascending ascending) (halves_inside_pairUp inside)]
      rfl

theorem halves_ne_nil {positions : List ℕ} (some : positions ≠ []) : halves positions ≠ [] := by
  obtain ⟨i, member⟩ := List.exists_mem_of_ne_nil _ some
  exact List.ne_nil_of_mem (mem_halves.mpr ⟨i, member, rfl⟩)

theorem positions_single {positions : List ℕ} (ascending : Ascending positions)
    (someone : positions ≠ []) (inside : ∀ i ∈ positions, i < 1) : positions = [0] := by
  obtain ⟨i, member⟩ := List.exists_mem_of_ne_nil _ someone
  have first : 0 ∈ positions := by
    have zero := inside i member
    obtain rfl : i = 0 := by omega
    exact member
  refine Ascending.eq_of_mem (List.pairwise_singleton _ 0) ascending fun j => ?_
  rw [List.mem_singleton]
  refine ⟨fun member => ?_, fun zero => zero ▸ first⟩
  have zero := inside j member
  omega

theorem partialLayers_ne_nil (remaining : ℕ) (nodes : List Hash) (positions : List ℕ) :
    partialLayers hash remaining nodes positions ≠ [] := by
  cases remaining <;> simp [partialLayers]

theorem treeRoot_cons {layer : Layer} {layers : List Layer} (more : layers ≠ []) :
    treeRoot (layer :: layers) = treeRoot layers := by
  obtain ⟨init, last, rfl⟩ := (List.eq_nil_or_concat' layers).resolve_left more
  simp [treeRoot, List.getLast?_cons]

theorem treeRoot_partialLayers {remaining : ℕ} {nodes : List Hash} {positions : List ℕ} {root : Hash}
    (ascending : Ascending positions) (someone : positions ≠ [])
    (inside : ∀ i ∈ positions, i < nodes.length)
    (top : level (combineNodes hash) nodes remaining = [root]) :
    treeRoot (partialLayers hash remaining nodes positions) = some root := by
  induction remaining generalizing nodes positions with
  | zero =>
      obtain rfl : nodes = [root] := top
      obtain rfl := positions_single ascending someone inside
      rfl
  | succ remaining ih =>
      rw [partialLayers, treeRoot_cons (partialLayers_ne_nil _ _ _)]
      exact ih (halves_ascending ascending) (halves_ne_nil someone) (halves_inside_pairUp inside) top

/-- The siblings that the verifier asks for are those that the prover finds. -/
theorem difference_needed {count : ℕ} {positions : List ℕ} (ascending : Ascending positions)
    (inside : ∀ i ∈ positions, i < count) {uneven : Option ℕ} :
    uneven = (if count % 2 ≠ 0 then some count else none) →
    difference (match uneven, positions.getLast? with
      | some layerCount, some lastNode =>
          if lastNode = layerCount - 1 then (siblingIndices positions).dropLast
          else siblingIndices positions
      | _, _ => siblingIndices positions) positions = needed count positions := by
  intro counted
  have within : ∀ i < count, (count % 2 ≠ 0 → i ≠ count - 1) → getSiblingIndex i < count := by
    intro i bound paired
    by_cases even : i % 2 = 0
    · rw [getSiblingIndex_even even]
      by_cases odd : count % 2 ≠ 0
      · have notLast := paired odd
        omega
      · omega
    · rw [getSiblingIndex_odd even]
      omega
  have kept : ∀ {some : List ℕ}, (∀ i ∈ some, getSiblingIndex i < count) →
      (difference (siblingIndices some) positions).filter (· < count) =
        difference (siblingIndices some) positions := by
    intro some bounds
    refine List.filter_eq_self.mpr fun sibling member => decide_eq_true ?_
    obtain ⟨i, own, rfl⟩ := List.mem_map.mp (List.mem_filter.mp member).1
    exact bounds i own
  rcases List.eq_nil_or_concat' positions with rfl | ⟨init, last, rfl⟩
  · cases uneven <;> rfl
  · have lastInside := inside last (by simp)
    have initInside : ∀ i ∈ init, i < last := fun i member =>
      (List.pairwise_append.mp ascending).2.2 i member last (List.mem_singleton_self _)
    by_cases odd : count % 2 ≠ 0
    · rw [if_pos odd] at counted
      subst counted
      simp only [List.getLast?_concat]
      by_cases final : last = count - 1
      · have beyond : getSiblingIndex last = count := by
          rw [getSiblingIndex_even (by omega)]
          omega
        have cut : (difference [getSiblingIndex last] (init ++ [last])).filter (· < count) =
            [] := by
          refine List.filter_eq_nil_iff.mpr fun sibling member => ?_
          obtain rfl := List.mem_singleton.mp (List.mem_filter.mp member).1
          simp [beyond]
        have split : difference (siblingIndices (init ++ [last])) (init ++ [last]) =
            difference (siblingIndices init) (init ++ [last]) ++
              difference [getSiblingIndex last] (init ++ [last]) := by
          rw [siblingIndices, List.map_append]
          exact List.filter_append ..
        have front : (siblingIndices (init ++ [last])).dropLast = siblingIndices init := by
          rw [siblingIndices, List.map_append]
          exact List.dropLast_concat
        rw [if_pos final, front, needed, split, List.filter_append, cut, List.append_nil]
        refine (kept fun i member => within i ?_ fun _ => ?_).symm
        · have below := initInside i member
          omega
        · have below := initInside i member
          omega
      · rw [if_neg final]
        refine (kept fun i member => within i (inside i member) fun _ => ?_).symm
        rcases List.mem_append.mp member with earlier | same
        · have below := initInside i earlier
          omega
        · rwa [List.mem_singleton.mp same]
    · rw [if_neg odd] at counted
      subst counted
      exact (kept fun i member => within i (inside i member) fun impossible =>
        absurd impossible odd).symm

theorem proofIndices_layers {uneven : List (ℕ × ℕ)} {remaining start count : ℕ}
    {positions : List ℕ} (ascending : Ascending positions) (inside : ∀ i ∈ positions, i < count)
    (agrees : ∀ layer ≥ start, uneven.lookup layer =
      (unevenLayers.layers remaining start count).lookup layer) :
    proofIndicesByLayers.layers uneven remaining start positions =
      neededByLayers remaining count positions := by
  induction remaining generalizing start count positions with
  | zero => rfl
  | succ remaining ih =>
      have rest := @ih (start + 1) (divCeil count 2) (halves positions)
        (halves_ascending ascending)
        (fun parent member => by
          have bound := halves_inside inside parent member
          rw [divCeil_two]
          omega)
        (fun layer above => by
          rw [agrees layer (by omega), lookup_unevenLayers_above (by omega)])
      have own := difference_needed ascending inside
        ((agrees start le_rfl).trans lookup_unevenLayers_here)
      rw [proofIndicesByLayers.layers, neededByLayers, parentIndices_eq, rest]
      exact congrArg (· :: _) own

theorem helperLayers_fst {remaining : ℕ} {nodes : List Hash} {positions : List ℕ} :
    (helperLayers hash remaining nodes positions).map (List.map Prod.fst) =
      neededByLayers remaining nodes.length positions := by
  induction remaining generalizing nodes positions with
  | zero => rfl
  | succ remaining ih =>
      rw [helperLayers, List.map_cons, pick_fst, ih, neededByLayers, length_pairUp, divCeil_two]

/-- What was numbered and flattened can be taken apart again. -/
theorem spliceByLayers_layers (layers : List Layer) (extra : List Hash) :
    spliceByLayers (layers.map (List.map Prod.fst))
      (layers.flatMap (List.map Prod.snd) ++ extra) = some layers := by
  induction layers with
  | nil => rfl
  | cons layer rest ih =>
      have size : (layer.map Prod.fst).length = (layer.map Prod.snd).length := by simp
      rw [List.map_cons, List.flatMap_cons, spliceByLayers, List.append_assoc, if_pos (by simp),
        size, List.drop_left, List.take_left, ih]
      simp [List.zip_map', List.map_id']

theorem filterMap_numbered (nodes : List Hash) (positions : List ℕ) :
    (difference (siblingIndices positions) positions).filterMap
      (fun index => (numbered nodes)[index]?) =
      pick (needed nodes.length positions) (valueOf nodes) := by
  rw [needed]
  induction difference (siblingIndices positions) positions with
  | nil => rfl
  | cons index rest ih =>
      rw [List.filterMap_cons, getElem?_numbered]
      by_cases inside : index < nodes.length
      · rw [List.filter_cons_of_pos (by simpa using inside), List.getElem?_eq_getElem inside]
        simp only [Option.map_some, ih, pick, List.map_cons, valueOf_getElem inside]
      · rw [List.filter_cons_of_neg (by simpa using inside),
          List.getElem?_eq_none (Nat.not_lt.mp inside)]
        exact ih

theorem helperNodeTuples_levels (remaining : ℕ) (nodes : List Hash) (positions : List ℕ) :
    MerkleTree.helperNodeTuples ((List.range remaining).map fun above =>
        numbered (level (combineNodes hash) nodes above)) positions =
      helperLayers hash remaining nodes positions := by
  induction remaining generalizing nodes positions with
  | zero => rfl
  | succ remaining ih =>
      rw [List.range_succ_eq_map, List.map_cons, List.map_map, MerkleTree.helperNodeTuples,
        filterMap_numbered, parentIndices_eq, helperLayers]
      exact congrArg (_ :: ·) (ih _ _)

theorem helperLayers_append (remaining more : ℕ) (nodes : List Hash) (positions : List ℕ) :
    ∃ extra, helperLayers hash (remaining + more) nodes positions =
      helperLayers hash remaining nodes positions ++ extra := by
  induction remaining generalizing nodes positions with
  | zero => exact ⟨_, rfl⟩
  | succ remaining ih =>
      obtain ⟨extra, rest⟩ := ih (pairUp (combineNodes hash) nodes) (halves positions)
      refine ⟨extra, ?_⟩
      rw [Nat.add_right_comm, helperLayers, rest]
      rfl

/-- The leaves may be put into the first layer or be there from the start. -/
theorem sortLayer_leaves {count : ℕ} {positions : List ℕ} {value helper : ℕ → Hash}
    (ascending : Ascending positions) (inside : ∀ i ∈ positions, i < count) :
    sortLayer (sortLayer (pick (needed count positions) helper ++ pick positions value)) =
      sortLayer (pick positions value ++ pick (needed count positions) helper) := by
  have upward := family_ascending (halves_ascending ascending) (halves_inside inside)
  have target := @sortLayer_helped count positions value helper ascending inside
  rw [target]
  refine sortLayer_eq upward ?_
  rw [← target]
  refine (List.perm_insertionSort _ _).trans ?_
  exact List.perm_append_comm.trans (List.perm_insertionSort _ _).symm

theorem buildTree_leaves {remaining count : ℕ} {positions : List ℕ} {value helper : ℕ → Hash}
    {layers : List Layer} (ascending : Ascending positions)
    (inside : ∀ i ∈ positions, i < count) :
    buildTree hash (remaining + 1)
        (sortLayer (pick (needed count positions) helper ++ pick positions value) :: layers) [] =
      buildTree hash (remaining + 1) (pick (needed count positions) helper :: layers)
        (pick positions value) := by
  simp only [buildTree, List.head?_cons, Option.getD_some, List.nil_append, List.tail_cons,
    sortLayer_leaves ascending inside]

theorem spliceByLayers_fst {indices : List (List ℕ)} {hashes : List Hash} {layers : List Layer}
    (spliced : spliceByLayers indices hashes = some layers) :
    layers.map (List.map Prod.fst) = indices := by
  induction indices generalizing hashes layers with
  | nil =>
      obtain rfl : [] = layers := Option.some.inj spliced
      rfl
  | cons positions rest ih =>
      rw [spliceByLayers] at spliced
      split at spliced
      · rename_i enough
        obtain ⟨others, tail, made⟩ := Option.bind_eq_some_iff.mp spliced
        obtain rfl := Option.some.inj made
        rw [List.map_cons, ih tail, List.map_fst_zip (by simpa using enough)]
      · cases spliced

/-- A layer without repetitions is a choice of values. -/
theorem exists_pick {layer : Layer} {positions : List ℕ} (nodup : positions.Nodup)
    (fsts : layer.map Prod.fst = positions) : ∃ value, layer = pick positions value := by
  refine ⟨fun i => (layer.lookup i).getD default, ?_⟩
  subst fsts
  rw [pick, List.map_map]
  refine (List.map_id' layer).symm.trans (List.map_congr_left fun node member => ?_)
  have found : layer.lookup node.1 = some node.2 := by
    induction layer with
    | nil => cases member
    | cons first rest ih =>
        obtain ⟨absent, once⟩ := List.nodup_cons.mp nodup
        rcases List.mem_cons.mp member with rfl | inRest
        · rw [List.lookup_cons, beq_self_eq_true]
        · have other : (node.1 == first.1) = false := by
            refine beq_eq_false_iff_ne.mpr fun same => absent ?_
            exact same ▸ List.mem_map_of_mem inRest
          rw [List.lookup_cons, other]
          exact ih once inRest
  simp [found]

theorem needed_nodup {count : ℕ} {positions : List ℕ} (ascending : Ascending positions) :
    (needed count positions).Nodup :=
  (List.nodup_append.mp (with_needed_nodup ascending)).2.1

theorem asked_needed {count : ℕ} {positions : List ℕ} (ascending : Ascending positions)
    (inside : ∀ i ∈ positions, i < count) :
    proofIndicesByLayers positions count = neededByLayers (treeDepth count) count positions :=
  proofIndices_layers ascending inside fun _ _ => rfl

theorem sortLayer_zip {positions : List ℕ} {value : ℕ → Hash} (ascending : Ascending positions) :
    sortLayer (positions.zip (positions.map value)) = pick positions value := by
  rw [← List.map_prod_left_eq_zip]
  exact sortLayer_eq ascending (List.Perm.refl _)

/-- What is made of the tree that was built for a proof. -/
def extractRoot : Except ErrorKind (List Layer) → Option (Except ErrorKind Hash)
  | .error kind => some (.error kind)
  | .ok tree =>
      match treeRoot tree with
      | some extractedRoot => some (.ok extractedRoot)
      | none => some (.error .notEnoughHashesToCalculateRoot)

theorem extractRoot_ok {built : Except ErrorKind (List Layer)} {root : Hash} :
    extractRoot built = some (.ok root) ↔ ∃ tree, built = .ok tree ∧ treeRoot tree = some root := by
  cases built with
  | error kind => simp [extractRoot]
  | ok tree =>
      cases found : treeRoot tree <;> simp [extractRoot, found]

/-- What the verifier computes, whatever the helper nodes are. -/
theorem root_of_layers {remaining count : ℕ} {positions : List ℕ} {value : ℕ → Hash}
    {layers : List Layer} {proof : MerkleProof} (depth : treeDepth count = remaining + 1)
    (ascending : Ascending positions) (inside : ∀ i ∈ positions, i < count)
    (spliced : spliceByLayers (neededByLayers (remaining + 1) count positions) proof.proofHashes =
      some layers) :
    proof.root hash positions (positions.map value) count =
      extractRoot (buildTree hash (remaining + 1) layers (pick positions value)) := by
  have fsts := spliceByLayers_fst spliced
  rw [neededByLayers] at fsts
  obtain ⟨first, rest, rfl⟩ := List.exists_cons_of_ne_nil (l := layers) (by
    rintro rfl
    cases fsts)
  obtain ⟨helper, rfl⟩ := exists_pick (needed_nodup ascending) (List.cons.inj fsts).1
  rw [MerkleProof.root, if_neg (by simp), asked_needed ascending inside, depth, spliced,
    sortLayer_zip ascending, ← buildTree_leaves ascending inside]
  rfl

section FromLeaves

variable {leaves : List Hash} {positions : List ℕ} (fits : leaves.length < 2 ^ 31)
  (someone : positions ≠ []) (ascending : Ascending positions)
  (inside : ∀ i ∈ positions, i < leaves.length)

include inside someone in
theorem leaves_ne_nil : leaves ≠ [] := by
  obtain ⟨i, member⟩ := List.exists_mem_of_ne_nil _ someone
  have bound := inside i member
  exact List.ne_nil_of_length_pos (by omega)

include fits someone ascending inside

/-- A proof of any leaves of a tree is read back from its bytes unchanged, and leads
from these leaves to the root. -/
theorem multiproof_complete : ∃ root,
    (MerkleTree.fromLeaves hash leaves).root = some root ∧
    MerkleProof.fromBytes ((MerkleTree.fromLeaves hash leaves).proof positions).toBytes =
      .ok ((MerkleTree.fromLeaves hash leaves).proof positions) ∧
    ((MerkleTree.fromLeaves hash leaves).proof positions).verify hash root positions
      (positions.map (valueOf leaves)) leaves.length = some true := by
  have nonempty := leaves_ne_nil someone inside
  obtain ⟨root, top, stored⟩ := @root_fromLeaves hash leaves nonempty fits
  obtain ⟨tall, _⟩ := fits_treeDepth fits
  obtain ⟨remaining, depth⟩ := Nat.exists_eq_add_of_lt tall
  rw [zero_add] at depth
  refine ⟨root, stored, fromBytes_toBytes _, ?_⟩
  obtain ⟨extra, more⟩ := @helperLayers_append hash (remaining + 1) 1 leaves positions
  have spliced : spliceByLayers (neededByLayers (remaining + 1) leaves.length positions)
      ((MerkleTree.fromLeaves hash leaves).proof positions).proofHashes =
      some (helperLayers hash (remaining + 1) leaves positions) := by
    rw [MerkleTree.proof, MerkleTree.helperNodes, layerTuples_fromLeaves nonempty tall, depth,
      helperNodeTuples_levels, more, List.flatMap_append, ← @helperLayers_fst hash]
    exact spliceByLayers_layers _ _
  rw [depth] at top
  have reached := extractRoot_ok.mpr ⟨_, @buildTree_partialLayers hash (remaining + 1) _ _
    ascending inside, treeRoot_partialLayers ascending someone inside top⟩
  rw [MerkleProof.verify, root_of_layers depth ascending inside spliced, reached, Option.map_some]
  exact congrArg some (decide_eq_true rfl)

end FromLeaves

namespace Small

/-- A tree over five leaves, the last of which is carried up twice. -/
def fiveLeaves : List Hash := [hashOf 3, hashOf 1, hashOf 4, hashOf 1, hashOf 5]

end Small

theorem multiproof_complete_five : ∃ root,
    (MerkleTree.fromLeaves (checksum 101) Small.fiveLeaves).root = some root ∧
    MerkleProof.fromBytes
        ((MerkleTree.fromLeaves (checksum 101) Small.fiveLeaves).proof [0, 4]).toBytes =
      .ok ((MerkleTree.fromLeaves (checksum 101) Small.fiveLeaves).proof [0, 4]) ∧
    ((MerkleTree.fromLeaves (checksum 101) Small.fiveLeaves).proof [0, 4]).verify (checksum 101)
      root [0, 4] ([0, 4].map (valueOf Small.fiveLeaves)) 5 = some true :=
  @multiproof_complete (checksum 101) Small.fiveLeaves [0, 4] (by decide) (by decide)
    (by simp [Ascending]) (by decide)

end SmartContracts.RsMerkle
