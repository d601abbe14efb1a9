import SmartContracts.RsMerkle.Multiproof

namespace SmartContracts.RsMerkle

open SmartContracts.Chain SmartContracts.Crypto SmartContracts.Data SmartContracts.Data.HashTree

/-! # Growing a tree

A commit builds the part of the new tree over the new leaves, takes the helper
nodes for it from the old tree, and merges it into the old tree.  What is left of
the old tree are the nodes over old leaves alone, which are the same in the new
tree, and so are the helper nodes.
-/

variable {hash : Bytes → Hash}

/-- The positions of what was added. -/
def added (start count : ℕ) : List ℕ := List.range' start (count - start)

section Added

variable {start count i : ℕ}

theorem mem_added : i ∈ added start count ↔ start ≤ i ∧ i < count := by
  rw [added, List.mem_range'_1]
  omega

theorem added_ascending : Ascending (added start count) := List.pairwise_lt_range' _

theorem added_inside : ∀ i ∈ added start count, i < count :=
  fun _ member => (mem_added.mp member).2

theorem added_ne_nil (more : start < count) : added start count ≠ [] :=
  List.ne_nil_of_mem (mem_added.mpr ⟨le_rfl, more⟩)

theorem halves_added (more : start < count) :
    halves (added start count) = added (start / 2) ((count + 1) / 2) := by
  apply Ascending.eq_of_mem added_ascending (halves_ascending added_ascending)
  intro parent
  rw [mem_halves, mem_added]
  constructor
  · intro half
    obtain ⟨i, member, rfl⟩ := half
    have bounds := mem_added.mp member
    omega
  · intro bounds
    by_cases left : start ≤ 2 * parent
    · exact ⟨2 * parent, mem_added.mpr (by omega), by omega⟩
    · exact ⟨2 * parent + 1, mem_added.mpr (by omega), by omega⟩

end Added

/-! ## Levels that extend levels -/

/-- The nodes before the start are those of the other level. -/
structure Extends (start : ℕ) (nodes grown : List Hash) : Prop where
  within : start ≤ nodes.length
  longer : nodes.length ≤ grown.length
  same : ∀ i < start, nodes[i]? = grown[i]?

namespace Extends

variable {start : ℕ} {nodes grown : List Hash}

theorem append (leaves more : List Hash) : Extends leaves.length leaves (leaves ++ more) where
  within := le_rfl
  longer := by simp
  same i inside := (List.getElem?_append_left inside).symm

theorem nil (grown : List Hash) : Extends 0 [] grown where
  within := le_rfl
  longer := Nat.zero_le _
  same i inside := absurd inside (Nat.not_lt_zero i)

theorem pairUp (grows : Extends start nodes grown) :
    Extends (start / 2) (pairUp (combineNodes hash) nodes) (pairUp (combineNodes hash) grown) where
  within := by
    have bound := grows.within
    rw [length_pairUp]
    omega
  longer := by
    have bound := grows.longer
    rw [length_pairUp, length_pairUp]
    omega
  same parent below := by
    rw [getElem?_pairUp, getElem?_pairUp, grows.same (2 * parent) (by omega),
      grows.same (2 * parent + 1) (by omega)]

theorem level (grows : Extends start nodes grown) (above : ℕ) :
    Extends (start / 2 ^ above) (level (combineNodes hash) nodes above)
      (level (combineNodes hash) grown above) := by
  induction above generalizing start nodes grown with
  | zero => simpa [HashTree.level] using grows
  | succ above ih =>
      rw [← halved_pow]
      exact ih grows.pairUp

theorem valueOf_eq (grows : Extends start nodes grown) {i : ℕ} (below : i < start) :
    valueOf nodes i = valueOf grown i := by
  rw [valueOf, valueOf, grows.same i below]

/-- The helper nodes of the old level are those of the new one. -/
theorem helpers (grows : Extends start nodes grown) :
    pick (needed nodes.length (added start grown.length)) (valueOf nodes) =
      pick (needed grown.length (added start grown.length)) (valueOf grown) := by
  have old : ∀ i < grown.length, i ∉ added start grown.length → i < start := by
    intro i inside absent
    by_contra above
    exact absent (mem_added.mpr ⟨Nat.not_lt.mp above, inside⟩)
  have positions : needed nodes.length (added start grown.length) =
      needed grown.length (added start grown.length) := by
    apply List.filter_congr
    intro i member
    have absent : i ∉ added start grown.length := by
      simpa using (List.mem_filter.mp member).2
    have bounds := old i
    have within := grows.within
    have longer := grows.longer
    exact decide_eq_decide.mpr ⟨fun inside => by omega, fun inside => by
      have below := bounds inside absent
      omega⟩
  rw [positions]
  apply pick_congr
  intro i member
  obtain ⟨inside, absent, _⟩ := mem_needed.mp member
  exact grows.valueOf_eq (old i inside absent)

/-- Old nodes give way to new ones at the same positions. -/
theorem merged (grows : Extends start nodes grown) {positions : List ℕ}
    (covered : ∀ i, start ≤ i → i < grown.length → i ∈ positions)
    (inside : ∀ i ∈ positions, i < grown.length) (nodup : positions.Nodup) :
    sortLayer ((numbered nodes).filter (fun node => node.1 ∉ positions) ++
      pick positions (valueOf grown)) = numbered grown := by
  have kept : (numbered nodes).filter (fun node => node.1 ∉ positions) =
      pick ((List.range nodes.length).filter (· ∉ positions)) (valueOf grown) := by
    rw [numbered_eq_pick, pick, List.filter_map]
    apply pick_congr
    intro i member
    obtain ⟨bound, absent⟩ := List.mem_filter.mp member
    apply grows.valueOf_eq
    by_contra above
    have longer := grows.longer
    have present := covered i (Nat.not_lt.mp above) (by
      have within := List.mem_range.mp bound
      omega)
    simp [present] at absent
  rw [kept, ← pick_append, numbered_eq_pick]
  apply sortLayer_eq List.pairwise_lt_range
  apply List.Perm.map
  apply Ascending.perm_of_mem List.pairwise_lt_range
  · apply List.nodup_append.mpr ⟨List.nodup_range.filter _, nodup, _⟩
    intro i old j new same
    have absent := (List.mem_filter.mp old).2
    rw [same] at absent
    simp [new] at absent
  · intro i
    have within := grows.within
    have longer := grows.longer
    simp only [List.mem_append, List.mem_filter, List.mem_range, decide_eq_true_eq]
    constructor
    · rintro (old | new)
      · omega
      · exact inside i new
    · intro bound
      by_cases new : i ∈ positions
      · exact .inr new
      · refine .inl ⟨?_, new⟩
        by_contra above
        exact new (covered i (by omega) bound)

end Extends

/-! ## A tree that a larger one extends -/

variable (hash) in
/-- Each layer of the tree is extended by the level over the larger list. -/
def Covers (layers : List Layer) (grown : List Hash) (start : ℕ) : Prop :=
  ∀ above, ∃ nodes, layers[above]?.getD [] = numbered nodes ∧
    Extends (start / 2 ^ above) nodes (level (combineNodes hash) grown above)

namespace Covers

variable {layers : List Layer} {grown : List Hash} {start : ℕ}

theorem head (covers : Covers hash layers grown start) :
    ∃ nodes, layers.head?.getD [] = numbered nodes ∧ Extends start nodes grown := by
  obtain ⟨nodes, stored, grows⟩ := covers 0
  rw [← List.head?_eq_getElem?] at stored
  exact ⟨nodes, stored, by simpa [level] using grows⟩

theorem tail (covers : Covers hash layers grown start) :
    Covers hash layers.tail (pairUp (combineNodes hash) grown) (start / 2) := by
  intro above
  obtain ⟨nodes, stored, grows⟩ := covers (above + 1)
  rw [← halved_pow] at grows
  rw [List.getElem?_tail]
  exact ⟨nodes, stored, grows⟩

end Covers

/-- The layers over the leaves, whatever is appended to these. -/
theorem covers_fromLeaves {leaves more : List Hash} (fits : leaves.length < 2 ^ 31) :
    Covers hash (MerkleTree.fromLeaves hash leaves).layerTuples (leaves ++ more)
      leaves.length := by
  intro above
  have grows := @Extends.level hash _ _ _ (Extends.append leaves more) above
  by_cases empty : leaves = []
  · subst empty
    refine ⟨[], rfl, ?_⟩
    rw [List.length_nil, Nat.zero_div]
    exact Extends.nil _
  · obtain ⟨tall, covered⟩ := fits_treeDepth fits
    rw [layerTuples_fromLeaves empty tall, List.getElem?_map]
    by_cases inside : above < treeDepth leaves.length + 1
    · rw [List.getElem?_range inside]
      exact ⟨_, rfl, grows⟩
    · have higher : treeDepth leaves.length < above := by omega
      have below : leaves.length < 2 ^ above :=
        Nat.lt_of_le_of_lt covered (Nat.pow_lt_pow_right (by decide) higher)
      rw [List.getElem?_eq_none (by simpa using inside), Nat.div_eq_of_lt below]
      exact ⟨[], rfl, Extends.nil _⟩

/-! ## Building the part over the new leaves -/

theorem helperNodeTuples_head (layers : List Layer) (positions : List ℕ) :
    (MerkleTree.helperNodeTuples layers positions).head?.getD [] =
      (difference (siblingIndices positions) positions).filterMap
        fun index => (layers.head?.getD [])[index]? := by
  cases layers with
  | nil => simp [MerkleTree.helperNodeTuples]
  | cons layer rest => rfl

theorem helperNodeTuples_tail (layers : List Layer) (positions : List ℕ) :
    (MerkleTree.helperNodeTuples layers positions).tail =
      MerkleTree.helperNodeTuples layers.tail (halves positions) := by
  cases layers with
  | nil => rfl
  | cons layer rest =>
      rw [MerkleTree.helperNodeTuples, parentIndices_eq]
      rfl

theorem buildTree_head (remaining : ℕ) (layers : List Layer) (current : Layer) :
    buildTree hash (remaining + 1) layers current =
      buildTree hash (remaining + 1) (layers.head?.getD [] :: layers.tail) current := rfl

section Commit

variable {layers : List Layer} {grown : List Hash} {start : ℕ}

theorem helpers_covered (covers : Covers hash layers grown start) :
    (MerkleTree.helperNodeTuples layers (added start grown.length)).head?.getD [] =
      pick (needed grown.length (added start grown.length)) (valueOf grown) := by
  obtain ⟨nodes, stored, grows⟩ := covers.head
  rw [helperNodeTuples_head, stored, filterMap_numbered, grows.helpers]

theorem buildTree_added {remaining : ℕ} (covers : Covers hash layers grown start)
    (more : start < grown.length) :
    buildTree hash remaining (MerkleTree.helperNodeTuples layers (added start grown.length))
        (pick (added start grown.length) (valueOf grown)) =
      .ok (partialLayers hash remaining grown (added start grown.length)) := by
  induction remaining generalizing layers grown start with
  | zero => rfl
  | succ remaining ih =>
      have size := @length_pairUp _ (combineNodes hash) grown
      have higher := ih covers.tail (by omega)
      rw [size, ← halves_added more] at higher
      rw [buildTree_head, helpers_covered covers, helperNodeTuples_tail,
        buildTree_step added_ascending added_inside, mixed_self, pick_above added_inside, higher]
      rfl

/-! ## Merging it into the old tree -/

/-- What is merged into a layer. -/
def mergedLayer (layers other : List Layer) (layerIndex : ℕ) : Layer :=
  sortLayer ((layers[layerIndex]?.getD []).filter
    (fun node => ¬ contains other layerIndex node.1) ++ other[layerIndex]?.getD [])

theorem upsertLayer_append {merged rest : List Layer} {newLayer : Layer} :
    upsertLayer (merged ++ rest) merged.length newLayer = merged ++ newLayer :: rest.tail := by
  cases rest with
  | nil => simp [upsertLayer]
  | cons layer rest => simp [upsertLayer]

theorem mergeUnverified_eq {other : List Layer} (longer : layers.length ≤ other.length) :
    mergeUnverified layers other = (List.range other.length).map (mergedLayer layers other) := by
  have size : (if other.length ≠ layers.length then other.length else layers.length) =
      other.length := by
    split
    · rfl
    · rename_i same
      exact (not_not.mp same).symm
  have merged : ∀ count, (List.range count).foldl (fun layers layerIndex =>
      let own := layers[layerIndex]?.getD []
      let filtered := own.filter fun node => ¬ contains other layerIndex node.1
      upsertLayer layers layerIndex (sortLayer (filtered ++ other[layerIndex]?.getD []))) layers =
        (List.range count).map (mergedLayer layers other) ++ layers.drop count := by
    intro count
    induction count with
    | zero => rfl
    | succ count ih =>
        have length : ((List.range count).map (mergedLayer layers other)).length = count := by simp
        have own : ((List.range count).map (mergedLayer layers other) ++
            layers.drop count)[count]? = layers[count]? := by
          rw [List.getElem?_append_right (Nat.le_of_eq length), length, List.getElem?_drop,
            Nat.sub_self, Nat.add_zero]
        have upserted := @upsertLayer_append ((List.range count).map (mergedLayer layers other))
          (layers.drop count) (mergedLayer layers other count)
        rw [length, List.tail_drop] at upserted
        rw [List.range_succ, List.foldl_append, ih, List.foldl_cons, List.foldl_nil,
          List.map_append, List.append_assoc]
        simp only [own]
        exact upserted
  rw [mergeUnverified, size, merged, List.drop_eq_nil_of_le longer, List.append_nil]

theorem contains_pick {others : List Layer} {positions : List ℕ} {value : ℕ → Hash} (i : ℕ) :
    contains (pick positions value :: others) 0 i = decide (i ∈ positions) := by
  apply Bool.eq_iff_iff.mpr
  simp [contains, pick]

theorem mergedLayer_zero {others : List Layer} {positions : List ℕ}
    (covers : Covers hash layers grown start)
    (covered : ∀ i, start ≤ i → i < grown.length → i ∈ positions)
    (inside : ∀ i ∈ positions, i < grown.length) (nodup : positions.Nodup) :
    mergedLayer layers (pick positions (valueOf grown) :: others) 0 = numbered grown := by
  obtain ⟨nodes, stored, grows⟩ := covers.head
  rw [mergedLayer, ← List.head?_eq_getElem?, stored]
  simp only [contains_pick, decide_eq_true_eq]
  exact grows.merged covered inside nodup

theorem mergedLayer_succ (first : Layer) (others : List Layer) (layerIndex : ℕ) :
    mergedLayer layers (first :: others) (layerIndex + 1) =
      mergedLayer layers.tail others layerIndex := by
  rw [mergedLayer, mergedLayer, List.getElem?_tail]
  rfl

theorem mergedLayer_added {remaining above : ℕ} (covers : Covers hash layers grown start)
    (more : start < grown.length) (within : above ≤ remaining) :
    mergedLayer layers (partialLayers hash remaining grown (added start grown.length)) above =
      numbered (level (combineNodes hash) grown above) := by
  induction remaining generalizing layers grown start above with
  | zero =>
      obtain rfl := Nat.le_zero.mp within
      apply mergedLayer_zero covers (fun i lower upper => mem_added.mpr ⟨lower, upper⟩)
        added_inside added_ascending.nodup
  | succ remaining ih =>
      have families := halves_inside (@added_inside start grown.length)
      cases above with
      | zero =>
          apply mergedLayer_zero covers
          · intro i lower upper
            rw [mem_family families, mem_halves]
            exact ⟨upper, i, mem_added.mpr ⟨lower, upper⟩, rfl⟩
          · intro i member
            exact ((mem_family families).mp member).1
          · exact (family_ascending (halves_ascending added_ascending) families).nodup
      | succ above =>
          have size := @length_pairUp _ (combineNodes hash) grown
          have higher := @ih _ _ _ above covers.tail (by omega) (by omega)
          rw [size, ← halves_added more] at higher
          rw [partialLayers, mergedLayer_succ, higher, level]

theorem length_partialLayers (remaining : ℕ) (nodes : List Hash) (positions : List ℕ) :
    (partialLayers hash remaining nodes positions).length = remaining + 1 := by
  induction remaining generalizing nodes positions with
  | zero => rfl
  | succ remaining ih => rw [partialLayers, List.length_cons, ih]

end Commit

/-! ## Committing leaves -/

theorem treeDepth_le {count depth : ℕ} (positive : 0 < depth) (bounded : depth < 32)
    (fits : count ≤ 2 ^ depth) : treeDepth count ≤ depth := by
  have enough : ∃ i, 0 < i ∧ count ≤ 2 ^ i := ⟨depth, positive, fits⟩
  have least := Nat.find_min' enough ⟨positive, fits⟩
  obtain ⟨found, room⟩ := Nat.find_spec enough
  have short : ∀ i, 0 < i → i < Nat.find enough → 2 ^ i < count := by
    intro i from1 below
    have tooShort := Nat.find_min enough below
    omega
  rw [treeDepth_eq found (by omega) room short]
  exact least

theorem treeDepth_mono {count more : ℕ} (smaller : count ≤ more) (fits : more < 2 ^ 31) :
    treeDepth count ≤ treeDepth more := by
  obtain ⟨tall, covered⟩ := fits_treeDepth fits
  have bounded : treeDepth more ≤ 31 := treeDepth_le (by decide) (by decide) (Nat.le_of_lt fits)
  exact treeDepth_le tall (by omega) (smaller.trans covered)

section Pending

variable {tree : MerkleTree} {leaves : List Hash}
  (stored : tree.layerTuples = (MerkleTree.fromLeaves hash leaves).layerTuples)
  (pending : tree.uncommittedLeaves ≠ [])
  (fits : (leaves ++ tree.uncommittedLeaves).length < 2 ^ 31)

include fits in
theorem leaves_fit : leaves.length < 2 ^ 31 := by
  rw [List.length_append] at fits
  omega

include pending in
theorem pending_more : leaves.length < (leaves ++ tree.uncommittedLeaves).length := by
  have positive := List.length_pos_iff.mpr pending
  rw [List.length_append]
  omega

section Stored

include stored fits

theorem leavesLen_fromLeaves : tree.leavesLen = leaves.length := by
  by_cases empty : leaves = []
  · subst empty
    rw [MerkleTree.leavesLen, stored]
    rfl
  · have tall := (fits_treeDepth (leaves_fit fits)).1
    rw [MerkleTree.leavesLen, stored, layerTuples_fromLeaves empty tall, List.range_succ_eq_map]
    simp [level, numbered]

theorem shadow_positions :
    (List.range tree.uncommittedLeaves.length).map (tree.leavesLen + ·) =
      added leaves.length (leaves ++ tree.uncommittedLeaves).length := by
  rw [leavesLen_fromLeaves stored fits, ← List.range'_eq_map_range, added, List.length_append,
    Nat.add_sub_cancel_left]

end Stored

theorem shadow_values :
    (added leaves.length (leaves ++ tree.uncommittedLeaves).length).zip tree.uncommittedLeaves =
      pick (added leaves.length (leaves ++ tree.uncommittedLeaves).length)
        (valueOf (leaves ++ tree.uncommittedLeaves)) := by
  rw [added, List.length_append, Nat.add_sub_cancel_left]
  apply List.ext_getElem
  · simp [pick]
  · intro i inZip inPick
    have inside : i < tree.uncommittedLeaves.length := by simpa [pick] using inPick
    simp [pick, valueOf, inside]

/-- The uncommitted leaves come with the helper nodes of the first layer. -/
def withShadow (shadow : Layer) : List Layer → List Layer
  | firstLayer :: rest => sortLayer (firstLayer ++ shadow) :: rest
  | [] => [shadow]

theorem buildTree_shadow {remaining count : ℕ} {positions : List ℕ} {value helper : ℕ → Hash}
    {helpers : List Layer} (ascending : Ascending positions) (inside : ∀ i ∈ positions, i < count)
    (first : helpers.head?.getD [] = pick (needed count positions) helper) :
    buildTree hash (remaining + 1) (withShadow (pick positions value) helpers) [] =
      buildTree hash (remaining + 1) helpers (pick positions value) := by
  cases helpers with
  | nil => simp [buildTree, withShadow]
  | cons firstLayer rest =>
      obtain rfl : firstLayer = pick (needed count positions) helper := first
      exact buildTree_leaves ascending inside

include stored fits pending

/-- The part of the tree over all leaves that is built for the uncommitted ones. -/
theorem uncommittedDiff_added :
    tree.uncommittedDiff hash = some (partialLayers hash
      (treeDepth (leaves ++ tree.uncommittedLeaves).length) (leaves ++ tree.uncommittedLeaves)
      (added leaves.length (leaves ++ tree.uncommittedLeaves).length)) := by
  have covers := @covers_fromLeaves hash leaves tree.uncommittedLeaves (leaves_fit fits)
  have more := @pending_more _ leaves pending
  obtain ⟨tall, _⟩ := fits_treeDepth fits
  obtain ⟨remaining, depth⟩ := Nat.exists_eq_add_of_lt tall
  rw [zero_add] at depth
  rw [← stored] at covers
  have total : tree.leavesLen + tree.uncommittedLeaves.length =
      (leaves ++ tree.uncommittedLeaves).length := by
    rw [leavesLen_fromLeaves stored fits, List.length_append]
  have built := @buildTree_added hash _ _ _ (remaining + 1) covers more
  have diff : tree.uncommittedDiff hash = (buildTree hash (treeDepth (tree.leavesLen +
      tree.uncommittedLeaves.length)) (withShadow (((List.range tree.uncommittedLeaves.length).map
        (tree.leavesLen + ·)).zip tree.uncommittedLeaves)
      (MerkleTree.helperNodeTuples tree.layerTuples
        ((List.range tree.uncommittedLeaves.length).map (tree.leavesLen + ·)))) []).toOption := by
    rw [MerkleTree.uncommittedDiff, if_neg pending]
    rfl
  rw [diff, total, depth, shadow_positions stored fits, shadow_values,
    buildTree_shadow added_ascending added_inside (helpers_covered covers), built]
  rfl

theorem mergeUnverified_added :
    mergeUnverified tree.layerTuples (partialLayers hash
      (treeDepth (leaves ++ tree.uncommittedLeaves).length) (leaves ++ tree.uncommittedLeaves)
      (added leaves.length (leaves ++ tree.uncommittedLeaves).length)) =
    (MerkleTree.fromLeaves hash (leaves ++ tree.uncommittedLeaves)).layerTuples := by
  have covers := @covers_fromLeaves hash leaves tree.uncommittedLeaves (leaves_fit fits)
  have more := @pending_more _ leaves pending
  have nonempty : leaves ++ tree.uncommittedLeaves ≠ [] := by simp [pending]
  have tall := (fits_treeDepth fits).1
  have longer : tree.layerTuples.length ≤ (partialLayers hash
      (treeDepth (leaves ++ tree.uncommittedLeaves).length) (leaves ++ tree.uncommittedLeaves)
      (added leaves.length (leaves ++ tree.uncommittedLeaves).length)).length := by
    rw [stored, length_partialLayers]
    by_cases empty : leaves = []
    · subst empty
      exact Nat.zero_le _
    · have smaller := treeDepth_mono (Nat.le_of_lt more) fits
      rw [layerTuples_fromLeaves empty (fits_treeDepth (leaves_fit fits)).1]
      simpa using smaller
  rw [← stored] at covers
  rw [mergeUnverified_eq longer, layerTuples_fromLeaves nonempty tall, length_partialLayers]
  apply List.map_congr_left
  intro above member
  have within := List.mem_range.mp member
  exact mergedLayer_added covers more (by omega)

end Pending

end SmartContracts.RsMerkle
