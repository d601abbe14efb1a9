import SmartContracts.RsMerkle.Multiproof

namespace SmartContracts.RsMerkle

open SmartContracts.Chain SmartContracts.Crypto SmartContracts.Data SmartContracts.Data.HashTree

/-! # What a proof of several leaves binds to

Two trees of one shape that agree in the root agree in every node, unless two of
the strings hashed for them collide.  The shape is fixed by the number of leaves,
so a proof that leads to the root of a tree was given the leaves of that tree.
-/

section Strings

variable (hash : Bytes → Hash)

/-- What is hashed for the parents. -/
def parentStrings (nodes : List Hash) : ℕ → List ℕ → List Bytes
  | _, [] => []
  | i, _ :: rest =>
      (match nodes[i * 2]?, nodes[i * 2 + 1]? with
        | some left, some right => [joinHashes left right]
        | _, _ => []) ++ parentStrings nodes (i + 1) rest

/-- What is hashed while a tree is built. -/
def buildStrings : ℕ → List Layer → Layer → List Bytes
  | 0, _, _ => []
  | remaining + 1, partialLayers, currentLayer =>
      let layer := sortLayer (currentLayer ++ partialLayers.head?.getD [])
      let parents := parentIndices (layer.map Prod.fst)
      parentStrings (layer.map Prod.snd) 0 parents ++
        match parentNodes hash (layer.map Prod.snd) 0 parents with
        | .ok above => buildStrings remaining partialLayers.tail above
        | .error _ => []

/-- What is hashed for the tree over the leaves. -/
def leavesStrings (leaves : List Hash) : List Bytes :=
  buildStrings hash (treeDepth leaves.length) [numbered leaves] []

/-- What is hashed to check a proof. -/
def proofStrings (proof : MerkleProof) (leafIndices : List ℕ) (leafHashes : List Hash)
    (totalLeavesCount : ℕ) : List Bytes :=
  match spliceByLayers (proofIndicesByLayers leafIndices totalLeavesCount) proof.proofHashes with
  | some (firstLayer :: rest) =>
      buildStrings hash (treeDepth totalLeavesCount)
        (sortLayer (firstLayer ++ sortLayer (leafIndices.zip leafHashes)) :: rest) []
  | _ => []

end Strings

variable {hash : Bytes → Hash}

section Families

variable {count : ℕ} {positions parents : List ℕ} {value helper : ℕ → Hash}

theorem mem_parentStrings {nodes : List Hash} {start : ℕ} (ascending : Ascending parents)
    (inside : ∀ parent ∈ parents, 2 * parent < count)
    (rest : nodes.drop (2 * start) = (family count parents).map value) {parent : ℕ}
    (member : parent ∈ parents) (paired : 2 * parent + 1 < count) :
    joinHashes (value (2 * parent)) (value (2 * parent + 1)) ∈
      parentStrings nodes start parents := by
  induction parents generalizing start with
  | nil => cases member
  | cons first others ih =>
      obtain ⟨left, right, later⟩ := family_front ascending inside rest
      rw [parentStrings, left]
      rcases List.mem_cons.mp member with rfl | inRest
      · simp [right, paired]
      · exact List.mem_append_right _ (ih (List.pairwise_cons.mp ascending).2
          (fun other own => inside other (List.mem_cons_of_mem _ own)) later inRest)

theorem buildStrings_step {remaining : ℕ} {layers : List Layer} (ascending : Ascending positions)
    (inside : ∀ i ∈ positions, i < count) :
    buildStrings hash (remaining + 1) (pick (needed count positions) helper :: layers)
        (pick positions value) =
      parentStrings ((family count (halves positions)).map (mixed positions value helper)) 0
        (halves positions) ++
      buildStrings hash remaining layers (pick (halves positions)
        (above (combineNodes hash) count (mixed positions value helper))) := by
  have upward := halves_ascending ascending
  have within := halves_inside inside
  have parents : parentNodes hash ((family count (halves positions)).map
      (mixed positions value helper)) 0 (halves positions) =
      .ok (pick (halves positions)
        (above (combineNodes hash) count (mixed positions value helper))) :=
    parentNodes_family upward within rfl
  simp only [buildStrings, List.head?_cons, Option.getD_some, List.tail_cons,
    sortLayer_helped ascending inside, pick_fst, pick_snd, parentIndices_eq,
    halves_family upward within, parents]

end Families

/-! ## The whole tree -/

theorem family_range (count : ℕ) :
    family count (List.range ((count + 1) / 2)) = List.range count := by
  have inside : ∀ parent ∈ List.range ((count + 1) / 2), 2 * parent < count := by
    intro parent member
    have bound := List.mem_range.mp member
    omega
  refine Ascending.eq_of_mem List.pairwise_lt_range
    (family_ascending List.pairwise_lt_range inside) fun i => ?_
  rw [mem_family inside, List.mem_range, List.mem_range]
  omega

theorem map_valueOf (nodes : List Hash) :
    (List.range nodes.length).map (valueOf nodes) = nodes := by
  rw [← pick_snd, ← numbered_eq_pick, numbered_snd]

theorem buildStrings_numbered (remaining : ℕ) (nodes : List Hash) :
    buildStrings hash (remaining + 1) [] (numbered nodes) =
      parentStrings nodes 0 (List.range ((nodes.length + 1) / 2)) ++
      buildStrings hash remaining [] (numbered (pairUp (combineNodes hash) nodes)) := by
  have parents : parentNodes hash nodes 0 (List.range ((nodes.length + 1) / 2)) =
      .ok (numbered (pairUp (combineNodes hash) nodes)) := by
    rw [List.range_eq_range', parentNodes_range nodes (Nat.zero_add _), numbered,
      length_pairUp, List.range_eq_range', List.drop_zero]
  simp only [buildStrings, List.head?_nil, Option.getD_none, List.append_nil, List.tail_nil,
    sortLayer_numbered, numbered_fst, numbered_snd, parentIndices_range, parents]

theorem mem_buildStrings_numbered {remaining parent : ℕ} {nodes : List Hash}
    (paired : 2 * parent + 1 < nodes.length) :
    joinHashes (valueOf nodes (2 * parent)) (valueOf nodes (2 * parent + 1)) ∈
      buildStrings hash (remaining + 1) [] (numbered nodes) := by
  rw [buildStrings_numbered]
  refine List.mem_append_left _ (@mem_parentStrings nodes.length _ _ nodes 0
    List.pairwise_lt_range (fun other member => ?_) ?_ _ ?_ paired)
  · have bound := List.mem_range.mp member
    omega
  · rw [family_range, map_valueOf, Nat.mul_zero, List.drop_zero]
  · rw [List.mem_range]
    omega

/-! ## Agreement from the root down -/

theorem buildTree_ne_nil {remaining : ℕ} {layers tree : List Layer} {current : Layer}
    (built : buildTree hash remaining layers current = .ok tree) : tree ≠ [] := by
  cases remaining with
  | zero =>
      cases built
      simp
  | succ remaining =>
      simp only [buildTree, bind, Except.bind] at built
      split at built
      · cases built
      · split at built
        · cases built
        · cases built
          simp

/-- Parents that agree have children that agree or collide. -/
theorem children_agree {count i : ℕ} {value other : ℕ → Hash} {first second : List Bytes}
    (bound : i < count)
    (same : above (combineNodes hash) count value (i / 2) =
      above (combineNodes hash) count other (i / 2))
    (hashed : 2 * (i / 2) + 1 < count →
      joinHashes (value (2 * (i / 2))) (value (2 * (i / 2) + 1)) ∈ first ∧
      joinHashes (other (2 * (i / 2))) (other (2 * (i / 2) + 1)) ∈ second) :
    value i = other i ∨ Collide hash first second := by
  by_cases paired : 2 * (i / 2) + 1 < count
  · rw [above, above, if_pos paired, if_pos paired] at same
    obtain ⟨inFirst, inSecond⟩ := hashed paired
    by_cases joined : joinHashes (value (2 * (i / 2))) (value (2 * (i / 2) + 1)) =
      joinHashes (other (2 * (i / 2))) (other (2 * (i / 2) + 1))
    · obtain ⟨left, right⟩ := joinHashes_injective _ _ _ _ joined
      rcases Nat.mod_two_eq_zero_or_one i with even | odd
      · have own : 2 * (i / 2) = i := by omega
        exact .inl (own ▸ left)
      · have own : 2 * (i / 2) + 1 = i := by omega
        rw [own] at right
        exact .inl right
    · exact .inr ⟨_, inFirst, _, inSecond, joined, same⟩
  · rw [above, above, if_neg paired, if_neg paired] at same
    have own : 2 * (i / 2) = i := by omega
    exact .inl (own ▸ same)

theorem agrees_or_collide {remaining : ℕ} {nodes : List Hash} {positions : List ℕ}
    {value : ℕ → Hash} {layers tree : List Layer} {root : Hash} (ascending : Ascending positions)
    (someone : positions ≠ []) (inside : ∀ i ∈ positions, i < nodes.length)
    (helped : layers.map (List.map Prod.fst) = neededByLayers remaining nodes.length positions)
    (built : buildTree hash remaining layers (pick positions value) = .ok tree)
    (found : treeRoot tree = some root)
    (top : level (combineNodes hash) nodes remaining = [root]) :
    (∀ i ∈ positions, value i = valueOf nodes i) ∨
      Collide hash (buildStrings hash remaining [] (numbered nodes))
        (buildStrings hash remaining layers (pick positions value)) := by
  induction remaining generalizing nodes positions value layers tree with
  | zero =>
      obtain rfl : nodes = [root] := top
      obtain rfl := positions_single ascending someone inside
      cases built
      refine .inl fun i member => ?_
      obtain rfl := List.mem_singleton.mp member
      exact Option.some.inj found
  | succ remaining ih =>
      rw [neededByLayers] at helped
      obtain ⟨first, rest, rfl⟩ := List.exists_cons_of_ne_nil (l := layers) (by
        rintro rfl
        cases helped)
      obtain ⟨own, others⟩ := List.cons.inj helped
      obtain ⟨helper, rfl⟩ := exists_pick (needed_nodup ascending) own
      rw [buildTree_step ascending inside] at built
      rw [buildStrings_step ascending inside, buildStrings_numbered]
      cases above' : buildTree hash remaining rest (pick (halves positions)
          (above (combineNodes hash) nodes.length (mixed positions value helper))) with
      | error kind =>
          rw [above'] at built
          cases built
      | ok upper =>
          rw [above'] at built
          cases built
          rw [treeRoot_cons (buildTree_ne_nil above')] at found
          have size : divCeil nodes.length 2 = (pairUp (combineNodes hash) nodes).length := by
            rw [divCeil_two, length_pairUp]
          rcases ih (halves_ascending ascending) (halves_ne_nil someone)
            (halves_inside_pairUp inside) (size ▸ others) above' found top with agree | collide
          · by_cases all : ∀ i ∈ positions, value i = valueOf nodes i
            · exact .inl all
            · right
              obtain ⟨i, wrong⟩ := not_forall.mp all
              obtain ⟨member, wrong⟩ := Classical.not_imp.mp wrong
              have half : i / 2 ∈ halves positions := mem_halves.mpr ⟨i, member, rfl⟩
              have parent := agree _ half
              rw [valueOf_pairUp (halves_inside inside _ half)] at parent
              have mixedHere : mixed positions value helper i = value i := if_pos member
              refine (children_agree (inside i member) parent.symm fun paired => ⟨?_, ?_⟩).resolve_left
                fun same => wrong (mixedHere ▸ same.symm)
              · rw [← buildStrings_numbered]
                exact mem_buildStrings_numbered paired
              · exact List.mem_append_left _ (mem_parentStrings (halves_ascending ascending)
                  (halves_inside inside) rfl half paired)
          · exact .inr (collide.mono (List.subset_append_right _ _) (List.subset_append_right _ _))

/-! ## The strings of the prover and of the verifier -/

/-- Leaves in the first layer are hashed as leaves that are there from the start. -/
theorem buildStrings_leaves {remaining count : ℕ} {positions : List ℕ} {value helper : ℕ → Hash}
    {layers : List Layer} (ascending : Ascending positions)
    (inside : ∀ i ∈ positions, i < count) :
    buildStrings hash (remaining + 1)
        (sortLayer (pick (needed count positions) helper ++ pick positions value) :: layers) [] =
      buildStrings hash (remaining + 1) (pick (needed count positions) helper :: layers)
        (pick positions value) := by
  simp only [buildStrings, List.head?_cons, Option.getD_some, List.nil_append, List.tail_cons,
    sortLayer_leaves ascending inside]

theorem leavesStrings_eq {leaves : List Hash} {remaining : ℕ}
    (depth : treeDepth leaves.length = remaining + 1) :
    leavesStrings hash leaves = buildStrings hash (remaining + 1) [] (numbered leaves) := by
  simp only [leavesStrings, depth, buildStrings, List.head?_cons, List.head?_nil,
    Option.getD_some, Option.getD_none, List.nil_append, List.append_nil, List.tail_cons,
    List.tail_nil]

section Verified

variable {count remaining : ℕ} {positions : List ℕ} {value : ℕ → Hash} {layers : List Layer}
  {proof : MerkleProof} (ascending : Ascending positions)

include ascending

theorem leaves_of_verify {root : Hash} {leafHashes : List Hash}
    (verified : proof.verify hash root positions leafHashes count = some true) :
    ∃ value, leafHashes = positions.map value := by
  have size : positions.length = leafHashes.length := by
    by_contra different
    simp [MerkleProof.verify, MerkleProof.root, different] at verified
  have fsts : (positions.zip leafHashes).map Prod.fst = positions :=
    List.map_fst_zip (Nat.le_of_eq size)
  obtain ⟨value, chosen⟩ := exists_pick ascending.nodup fsts
  refine ⟨value, ?_⟩
  rw [← pick_snd, ← chosen, List.map_snd_zip (Nat.le_of_eq size.symm)]

variable (inside : ∀ i ∈ positions, i < count)

include inside

variable (depth : treeDepth count = remaining + 1)

include depth

theorem tree_of_verify {root : Hash}
    (verified : proof.verify hash root positions (positions.map value) count = some true) :
    ∃ layers tree,
      spliceByLayers (neededByLayers (remaining + 1) count positions) proof.proofHashes =
        some layers ∧
      buildTree hash (remaining + 1) layers (pick positions value) = .ok tree ∧
      treeRoot tree = some root := by
  obtain ⟨outcome, computed, accepted⟩ := Option.map_eq_some_iff.mp verified
  cases spliced : spliceByLayers (neededByLayers (remaining + 1) count positions)
      proof.proofHashes with
  | none =>
      rw [MerkleProof.root, if_neg (by simp), asked_needed ascending inside, depth,
        spliced] at computed
      cases computed
  | some layers =>
      rw [root_of_layers depth ascending inside spliced] at computed
      cases outcome with
      | error kind => cases accepted
      | ok extracted =>
          obtain ⟨tree, built, found⟩ := extractRoot_ok.mp computed
          exact ⟨layers, tree, rfl, built, (of_decide_eq_true accepted) ▸ found⟩

theorem proofStrings_eq
    (spliced : spliceByLayers (neededByLayers (remaining + 1) count positions)
      proof.proofHashes = some layers) :
    proofStrings hash proof positions (positions.map value) count =
      buildStrings hash (remaining + 1) layers (pick positions value) := by
  have fsts := spliceByLayers_fst spliced
  rw [neededByLayers] at fsts
  obtain ⟨first, rest, rfl⟩ := List.exists_cons_of_ne_nil (l := layers) (by
    rintro rfl
    cases fsts)
  obtain ⟨helper, rfl⟩ := exists_pick (needed_nodup ascending) (List.cons.inj fsts).1
  rw [proofStrings, asked_needed ascending inside, depth, spliced, sortLayer_zip ascending]
  exact buildStrings_leaves ascending inside

end Verified

section FromLeaves

variable {leaves : List Hash} {positions : List ℕ} (fits : leaves.length < 2 ^ 31)
  (someone : positions ≠ []) (ascending : Ascending positions)
  (inside : ∀ i ∈ positions, i < leaves.length)

include fits someone ascending inside

/-- Whoever proves anything else than the leaves of a tree has found a collision. -/
theorem multiproof_sound {root : Hash} {proof : MerkleProof} {leafHashes : List Hash}
    (stored : (MerkleTree.fromLeaves hash leaves).root = some root)
    (verified : proof.verify hash root positions leafHashes leaves.length = some true) :
    leafHashes = positions.map (valueOf leaves) ∨
      Collide hash (leavesStrings hash leaves)
        (proofStrings hash proof positions leafHashes leaves.length) := by
  have nonempty := leaves_ne_nil someone inside
  obtain ⟨other, top, same⟩ := @root_fromLeaves hash leaves nonempty fits
  obtain rfl : root = other := Option.some.inj (stored.symm.trans same)
  obtain ⟨tall, _⟩ := fits_treeDepth fits
  obtain ⟨remaining, depth⟩ := Nat.exists_eq_add_of_lt tall
  rw [zero_add] at depth
  obtain ⟨value, rfl⟩ := leaves_of_verify ascending verified
  obtain ⟨layers, tree, spliced, built, found⟩ :=
    tree_of_verify ascending inside depth verified
  have helped := spliceByLayers_fst spliced
  rw [proofStrings_eq ascending inside depth spliced, leavesStrings_eq depth]
  rw [depth] at top
  rcases agrees_or_collide ascending someone inside helped built found top with agree | collide
  · exact .inl (List.map_congr_left agree)
  · exact .inr collide

end FromLeaves

/-- With a checksum for a hash other leaves lead to the root as well. -/
theorem multiproof_sound_forged :
    [hashOf 103, hashOf 5] = [0, 4].map (valueOf Small.fiveLeaves) ∨
      Collide (checksum 101) (leavesStrings (checksum 101) Small.fiveLeaves)
        (proofStrings (checksum 101)
          ((MerkleTree.fromLeaves (checksum 101) Small.fiveLeaves).proof [0, 4]) [0, 4]
          [hashOf 103, hashOf 5] 5) := by
  have stored : (MerkleTree.fromLeaves (checksum 101) Small.fiveLeaves).root =
      some ((MerkleTree.fromLeaves (checksum 101) Small.fiveLeaves).root.getD default) := by
    decide +kernel
  exact @multiproof_sound (checksum 101) Small.fiveLeaves [0, 4] (by decide) (by decide)
    (by simp [Ascending]) (by decide) _ _ _ stored (by decide +kernel)

end SmartContracts.RsMerkle
