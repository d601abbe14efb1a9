import SmartContracts.Data.Positions
import SmartContracts.RsMerkle.Tree

namespace SmartContracts.RsMerkle

open SmartContracts.Chain SmartContracts.Crypto SmartContracts.Data SmartContracts.Data.HashTree

/-! # Partial trees

A layer of a partial tree holds values at some positions.  With the helper
nodes it holds whole families, and the layer above holds their parents; that is
so whatever the values are, so the same step serves the prover, who takes the
helper nodes from a tree, and the verifier, who is given them.
-/

def pick (positions : List ℕ) (value : ℕ → Hash) : Layer := positions.map fun i => (i, value i)

/-- The siblings a layer of the given length has to be helped with. -/
def needed (count : ℕ) (positions : List ℕ) : List ℕ :=
  (difference (siblingIndices positions) positions).filter (· < count)

section Layers

variable {count i j : ℕ} {positions : List ℕ} {value other : ℕ → Hash}

@[simp] theorem pick_fst : (pick positions value).map Prod.fst = positions := by
  simp [pick, Function.comp_def]

@[simp] theorem pick_snd : (pick positions value).map Prod.snd = positions.map value := by
  simp [pick, Function.comp_def]

theorem pick_append (more : List ℕ) :
    pick (positions ++ more) value = pick positions value ++ pick more value :=
  List.map_append

theorem pick_congr (same : ∀ i ∈ positions, value i = other i) :
    pick positions value = pick positions other :=
  List.map_congr_left fun i member => by rw [same i member]

theorem numbered_eq_pick (nodes : List Hash) :
    numbered nodes = pick (List.range nodes.length) (valueOf nodes) := by
  refine List.ext_getElem (by simp [numbered, pick]) fun i inNumbered inPick => ?_
  have inside : i < nodes.length := by simpa [pick] using inPick
  simp [numbered, pick, valueOf_getElem inside]

theorem sortLayer_eq {layer : Layer} (ascending : Ascending positions)
    (permuted : layer.Perm (pick positions value)) : sortLayer layer = pick positions value := by
  have sorted : (sortLayer layer).Pairwise (fun a b => a.1 ≤ b.1) :=
    List.pairwise_insertionSort _ _
  have alsoSorted : (pick positions value).Pairwise (fun a b => a.1 ≤ b.1) :=
    List.pairwise_map.mpr (ascending.imp Nat.le_of_lt)
  have same : (sortLayer layer).Perm (pick positions value) :=
    (List.perm_insertionSort _ _).trans permuted
  refine List.Perm.eq_of_pairwise (fun a b inSorted inPick lower upper => ?_) sorted alsoSorted same
  obtain ⟨i, _, rfl⟩ := List.mem_map.mp (same.subset inSorted)
  obtain ⟨j, _, rfl⟩ := List.mem_map.mp inPick
  have position : i = j := Nat.le_antisymm lower upper
  rw [position]

theorem parentIndices_eq : parentIndices positions = halves positions := by
  rw [parentIndices, halves, List.map_congr_left fun i _ => parentIndex_eq i]

/-! ## The helper nodes of a layer -/

theorem getSiblingIndex_half (i : ℕ) : getSiblingIndex i / 2 = i / 2 := by
  by_cases even : i % 2 = 0
  · rw [getSiblingIndex_even even]
    omega
  · rw [getSiblingIndex_odd even]
    omega

theorem eq_sibling (half : i / 2 = j / 2) (different : i ≠ j) : i = getSiblingIndex j := by
  by_cases even : j % 2 = 0
  · rw [getSiblingIndex_even even]
    omega
  · rw [getSiblingIndex_odd even]
    omega

theorem getSiblingIndex_injective : Function.Injective getSiblingIndex := by
  intro i j same
  by_contra different
  have half : i / 2 = j / 2 := by
    rw [← getSiblingIndex_half i, same, getSiblingIndex_half j]
  have sibling := eq_sibling half different
  rw [← same] at sibling
  exact getSiblingIndex_ne i sibling.symm

theorem mem_needed : i ∈ needed count positions ↔
    i < count ∧ i ∉ positions ∧ ∃ j ∈ positions, getSiblingIndex j = i := by
  simp only [needed, difference, siblingIndices, List.mem_filter, List.mem_map,
    decide_eq_true_eq]
  tauto

theorem mem_with_needed (inside : ∀ i ∈ positions, i < count) :
    i ∈ positions ++ needed count positions ↔ i < count ∧ i / 2 ∈ halves positions := by
  rw [List.mem_append, mem_needed, mem_halves]
  constructor
  · rintro (own | ⟨bound, _, j, member, rfl⟩)
    · exact ⟨inside i own, i, own, rfl⟩
    · exact ⟨bound, j, member, (getSiblingIndex_half j).symm⟩
  · intro child
    obtain ⟨bound, j, member, half⟩ := child
    by_cases own : i ∈ positions
    · exact .inl own
    · have different : i ≠ j := fun same => own (same ▸ member)
      exact .inr ⟨bound, own, j, member, (eq_sibling half.symm different).symm⟩

theorem with_needed_nodup (ascending : Ascending positions) :
    (positions ++ needed count positions).Nodup := by
  refine List.nodup_append.mpr ⟨ascending.nodup, ?_, fun i own j helps same => ?_⟩
  · exact List.Nodup.filter _ (List.Nodup.filter _
      (ascending.nodup.map getSiblingIndex_injective))
  · exact (mem_needed.mp helps).2.1 (same ▸ own)

theorem halves_inside (inside : ∀ i ∈ positions, i < count) :
    ∀ parent ∈ halves positions, 2 * parent < count := by
  intro parent member
  obtain ⟨i, own, rfl⟩ := mem_halves.mp member
  have bound := inside i own
  omega

end Layers

/-! ## One layer and the next -/

/-- Own values where there are some, and helper nodes elsewhere. -/
def mixed (positions : List ℕ) (value helper : ℕ → Hash) (i : ℕ) : Hash :=
  if i ∈ positions then value i else helper i

theorem mixed_self (positions : List ℕ) (value : ℕ → Hash) :
    mixed positions value value = value := by
  funext i
  exact ite_self _

section Step

variable {hash : Bytes → Hash} {count : ℕ} {positions : List ℕ} {value helper : ℕ → Hash}

theorem sortLayer_helped (ascending : Ascending positions) (inside : ∀ i ∈ positions, i < count) :
    sortLayer (pick positions value ++ pick (needed count positions) helper) =
      pick (family count (halves positions)) (mixed positions value helper) := by
  have upward := halves_ascending ascending
  have within := halves_inside inside
  have own : pick positions value = pick positions (mixed positions value helper) :=
    pick_congr fun i member => by rw [mixed, if_pos member]
  have helped : pick (needed count positions) helper =
      pick (needed count positions) (mixed positions value helper) :=
    pick_congr fun i member => by rw [mixed, if_neg (mem_needed.mp member).2.1]
  rw [own, helped, ← pick_append]
  refine sortLayer_eq (family_ascending upward within) (List.Perm.map _ ?_)
  refine (family_ascending upward within).perm_of_mem (with_needed_nodup ascending) fun i => ?_
  rw [mem_with_needed inside, mem_family within]

/-- Families stand two by two, but for a last child without a sibling. -/
theorem family_front {parent start : ℕ} {others : List ℕ} {nodes : List Hash}
    (ascending : Ascending (parent :: others))
    (inside : ∀ other ∈ parent :: others, 2 * other < count)
    (rest : nodes.drop (2 * start) = (family count (parent :: others)).map value) :
    nodes[start * 2]? = some (value (2 * parent)) ∧
    nodes[start * 2 + 1]? =
      (if 2 * parent + 1 < count then some (value (2 * parent + 1)) else none) ∧
    nodes.drop (2 * (start + 1)) = (family count others).map value := by
  have first : nodes[start * 2]? = ((family count (parent :: others)).map value)[0]? := by
    rw [← rest, List.getElem?_drop, Nat.add_zero, Nat.mul_comm]
  have second : nodes[start * 2 + 1]? = ((family count (parent :: others)).map value)[1]? := by
    rw [← rest, List.getElem?_drop, Nat.mul_comm]
  have later : nodes.drop (2 * (start + 1)) =
      ((family count (parent :: others)).map value).drop 2 := by
    rw [← rest, List.drop_drop]
    rfl
  rw [first, second, later, family, List.flatMap_cons, children]
  by_cases paired : 2 * parent + 1 < count
  · rw [if_pos paired, if_pos paired]
    exact ⟨rfl, rfl, rfl⟩
  · have alone : others = [] := by
      refine List.eq_nil_iff_forall_not_mem.mpr fun other member => ?_
      have below := (List.pairwise_cons.mp ascending).1 other member
      have bound := inside other (List.mem_cons_of_mem _ member)
      omega
    rw [if_neg paired, if_neg paired, alone]
    exact ⟨rfl, rfl, rfl⟩

theorem parentNodes_family {parents : List ℕ} {nodes : List Hash} {start : ℕ}
    (ascending : Ascending parents) (inside : ∀ parent ∈ parents, 2 * parent < count)
    (rest : nodes.drop (2 * start) = (family count parents).map value) :
    parentNodes hash nodes start parents =
      .ok (pick parents (above (combineNodes hash) count value)) := by
  induction parents generalizing start with
  | nil => rfl
  | cons parent others ih =>
      obtain ⟨left, right, later⟩ := family_front ascending inside rest
      have tail := ih (List.pairwise_cons.mp ascending).2
        (fun other member => inside other (List.mem_cons_of_mem _ member)) later
      rw [parentNodes, left]
      simp only [tail, right, pick, List.map_cons, above]
      split <;> rfl

/-- What a step of building does to a layer and its helper nodes. -/
theorem buildTree_step {remaining : ℕ} {layers : List Layer} (ascending : Ascending positions)
    (inside : ∀ i ∈ positions, i < count) :
    buildTree hash (remaining + 1) (pick (needed count positions) helper :: layers)
        (pick positions value) = (do
      let tree ← buildTree hash remaining layers (pick (halves positions)
        (above (combineNodes hash) count (mixed positions value helper)))
      .ok (pick (family count (halves positions)) (mixed positions value helper) :: tree)) := by
  have upward := halves_ascending ascending
  have within := halves_inside inside
  rw [buildTree, List.head?_cons, Option.getD_some, List.tail_cons,
    sortLayer_helped ascending inside, pick_fst, pick_snd, parentIndices_eq,
    halves_family upward within, parentNodes_family upward within rfl]
  rfl

end Step

end SmartContracts.RsMerkle
