import SmartContracts.Data.HashTree

namespace SmartContracts.Data

/-! # Ascending positions

Some positions of a level, in ascending order.  Their parents are their halves
without the repetitions, and the family of the parents is what has to be known
of the level for all parents to be computed.  An ascending list is determined by
its members, so no list is ever compared by its shape.
-/

variable {α : Type*}

def Ascending (positions : List ℕ) : Prop := positions.Pairwise (· < ·)

namespace Ascending

variable {positions others : List ℕ}

theorem nodup (ascending : Ascending positions) : positions.Nodup :=
  ascending.imp Nat.ne_of_lt

theorem perm_of_mem (ascending : Ascending positions) (nodup : others.Nodup)
    (same : ∀ i, i ∈ others ↔ i ∈ positions) : others.Perm positions :=
  (List.perm_ext_iff_of_nodup nodup ascending.nodup).mpr same

theorem eq_of_mem (ascending : Ascending positions) (alsoAscending : Ascending others)
    (same : ∀ i, i ∈ others ↔ i ∈ positions) : others = positions :=
  List.Perm.eq_of_pairwise (fun _ _ _ _ below above => absurd below (Nat.lt_asymm above))
    alsoAscending ascending (ascending.perm_of_mem alsoAscending.nodup same)

end Ascending

/-! ## Erasing repetitions -/

theorem eraseReps_loop (first : ℕ) (rest kept : List ℕ) :
    List.eraseRepsBy.loop (· == ·) first rest kept =
      kept.reverse ++ (first :: rest).eraseReps := by
  induction rest generalizing first kept with
  | nil => simp [List.eraseReps, List.eraseRepsBy, List.eraseRepsBy.loop]
  | cons second rest ih =>
      rw [List.eraseReps, List.eraseRepsBy, List.eraseRepsBy.loop, List.eraseRepsBy.loop]
      cases first == second with
      | true => simp only [ih, List.reverse_nil, List.nil_append]
      | false => simp only [ih, List.reverse_cons, List.reverse_nil, List.nil_append,
          List.append_assoc, List.singleton_append]

theorem eraseReps_cons_cons (first second : ℕ) (rest : List ℕ) :
    (first :: second :: rest).eraseReps =
      if first = second then (second :: rest).eraseReps
      else first :: (second :: rest).eraseReps := by
  rw [List.eraseReps, List.eraseRepsBy, List.eraseRepsBy.loop]
  by_cases same : first = second
  · subst same
    simp [eraseReps_loop]
  · have apart : (first == second) = false := by simpa using same
    simp only [apart, eraseReps_loop, if_neg same, List.reverse_cons, List.reverse_nil,
      List.nil_append, List.singleton_append]

theorem mem_eraseReps (positions : List ℕ) (i : ℕ) :
    i ∈ positions.eraseReps ↔ i ∈ positions := by
  induction positions with
  | nil => simp [List.eraseReps, List.eraseRepsBy]
  | cons first rest ih =>
      cases rest with
      | nil => simp [List.eraseReps, List.eraseRepsBy, List.eraseRepsBy.loop]
      | cons second rest =>
          rw [eraseReps_cons_cons]
          split
          · rename_i same
            rw [ih, same]
            simp
          · rw [List.mem_cons, ih, ← List.mem_cons]

theorem eraseReps_ascending {positions : List ℕ} (sorted : positions.Pairwise (· ≤ ·)) :
    Ascending positions.eraseReps := by
  induction positions with
  | nil => exact List.Pairwise.nil
  | cons first rest ih =>
      obtain ⟨below, tail⟩ := List.pairwise_cons.mp sorted
      cases rest with
      | nil => exact List.pairwise_singleton _ _
      | cons second rest =>
          rw [eraseReps_cons_cons]
          split
          · exact ih tail
          · rename_i different
            refine List.pairwise_cons.mpr ⟨fun later member => ?_, ih tail⟩
            have strictly : first < second :=
              Nat.lt_of_le_of_ne (below second List.mem_cons_self) different
            rcases List.mem_cons.mp ((mem_eraseReps _ _).mp member) with rfl | inRest
            · exact strictly
            · exact Nat.lt_of_lt_of_le strictly ((List.pairwise_cons.mp tail).1 later inRest)

/-! ## Parents and families -/

/-- The positions of the parents. -/
def halves (positions : List ℕ) : List ℕ := (positions.map (· / 2)).eraseReps

def children (count parent : ℕ) : List ℕ :=
  if 2 * parent + 1 < count then [2 * parent, 2 * parent + 1] else [2 * parent]

/-- The children of the parents in a level of the given length. -/
def family (count : ℕ) (parents : List ℕ) : List ℕ := parents.flatMap (children count)

theorem mem_halves {positions : List ℕ} {parent : ℕ} :
    parent ∈ halves positions ↔ ∃ i ∈ positions, i / 2 = parent := by
  rw [halves, mem_eraseReps, List.mem_map]

theorem halves_ascending {positions : List ℕ} (ascending : Ascending positions) :
    Ascending (halves positions) := by
  refine eraseReps_ascending (List.pairwise_map.mpr (ascending.imp fun below => ?_))
  exact Nat.div_le_div_right (Nat.le_of_lt below)

section Family

variable {count : ℕ} {parents : List ℕ}

theorem mem_children {parent i : ℕ} (inside : 2 * parent < count) :
    i ∈ children count parent ↔ i < count ∧ i / 2 = parent := by
  unfold children
  split
  · simp only [List.mem_cons, List.not_mem_nil, or_false]
    omega
  · rw [List.mem_singleton]
    omega

theorem mem_family (inside : ∀ parent ∈ parents, 2 * parent < count) {i : ℕ} :
    i ∈ family count parents ↔ i < count ∧ i / 2 ∈ parents := by
  rw [family, List.mem_flatMap]
  constructor
  · intro born
    obtain ⟨parent, member, child⟩ := born
    obtain ⟨bound, rfl⟩ := (mem_children (inside parent member)).mp child
    exact ⟨bound, member⟩
  · intro born
    exact ⟨i / 2, born.2, (mem_children (inside _ born.2)).mpr ⟨born.1, rfl⟩⟩

theorem family_ascending (ascending : Ascending parents)
    (inside : ∀ parent ∈ parents, 2 * parent < count) : Ascending (family count parents) := by
  induction parents with
  | nil => exact List.Pairwise.nil
  | cons parent rest ih =>
      obtain ⟨below, tail⟩ := List.pairwise_cons.mp ascending
      have restInside : ∀ other ∈ rest, 2 * other < count :=
        fun other member => inside other (List.mem_cons_of_mem _ member)
      refine List.pairwise_append.mpr ⟨?_, ih tail restInside, fun i own j later => ?_⟩
      · unfold children
        split <;> simp
      · have half := ((mem_children (inside parent List.mem_cons_self)).mp own).2
        have lower := below _ ((mem_family restInside).mp later).2
        omega

theorem halves_family (ascending : Ascending parents)
    (inside : ∀ parent ∈ parents, 2 * parent < count) :
    halves (family count parents) = parents := by
  refine ascending.eq_of_mem (halves_ascending (family_ascending ascending inside)) fun parent => ?_
  rw [mem_halves]
  constructor
  · intro half
    obtain ⟨i, member, rfl⟩ := half
    exact ((mem_family inside).mp member).2
  · intro member
    have half : 2 * parent / 2 = parent := by omega
    exact ⟨2 * parent, (mem_family inside).mpr ⟨inside parent member, half.symm ▸ member⟩, half⟩

end Family

/-! ## Values by position -/

/-- The value of a parent, from the values in a level of the given length. -/
def above (combine : α → α → α) (count : ℕ) (value : ℕ → α) (parent : ℕ) : α :=
  if 2 * parent + 1 < count then combine (value (2 * parent)) (value (2 * parent + 1))
  else value (2 * parent)

variable [Inhabited α]

def valueOf (nodes : List α) (i : ℕ) : α := nodes[i]?.getD default

theorem valueOf_getElem {nodes : List α} {i : ℕ} (inside : i < nodes.length) :
    valueOf nodes i = nodes[i] := by
  rw [valueOf, List.getElem?_eq_getElem inside, Option.getD_some]

/-- The level above holds the values of the parents. -/
theorem valueOf_pairUp {combine : α → α → α} {nodes : List α} {parent : ℕ}
    (inside : 2 * parent < nodes.length) :
    valueOf (HashTree.pairUp combine nodes) parent =
      above combine nodes.length (valueOf nodes) parent := by
  rw [valueOf, HashTree.getElem?_pairUp, List.getElem?_eq_getElem inside, above,
    valueOf_getElem inside, Option.map_some, Option.getD_some]
  split
  · rename_i right found
    obtain ⟨within, value⟩ := List.getElem?_eq_some_iff.mp found
    rw [if_pos within, valueOf_getElem within, value]
  · rename_i missing
    rw [if_neg (Nat.not_lt.mpr (List.getElem?_eq_none_iff.mp missing))]

end SmartContracts.Data
