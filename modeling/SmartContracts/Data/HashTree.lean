import Mathlib

namespace SmartContracts.Data

/-! # Hash trees

A leaf is hashed as it is and an inner node as the join of the digests of its
children.  Whoever climbs from a string to the digest of a tree by hashing has
started from a leaf, or has hashed another string than the tree to the same
value.  The tree over a list is built in levels, in which a last node without a
partner is carried up.
-/

variable {S D α β : Type*}

inductive HashTree (S : Type*) where
  | leaf (string : S)
  | node (left right : HashTree S)

namespace HashTree

def leaves : HashTree S → List S
  | leaf string => [string]
  | node left right => left.leaves ++ right.leaves

/-- The side on which the sibling stands. -/
inductive Side where
  | left
  | right
deriving DecidableEq

section Digest

variable (hash : S → D) (join : D → D → S)

def digest : HashTree S → D
  | leaf string => hash string
  | node left right => hash (join left.digest right.digest)

/-- Every string that is hashed for the digest. -/
def strings : HashTree S → List S
  | leaf string => [string]
  | node left right =>
      join (left.digest hash join) (right.digest hash join) :: (left.strings ++ right.strings)

def joined (value : D) : Side × D → S
  | (.left, sibling) => join sibling value
  | (.right, sibling) => join value sibling

/-- The path leads from the leaf to the root. -/
def climb (value : D) : List (Side × D) → D
  | [] => value
  | step :: above => climb (hash (joined join value step)) above

/-- Every string that is hashed on the way. -/
def climbed (value : D) : List (Side × D) → List S
  | [] => []
  | step :: above =>
      joined join value step :: climbed (hash (joined join value step)) above

/-- Two of these strings differ and have one digest. -/
def Collide (first second : List S) : Prop :=
  ∃ x ∈ first, ∃ y ∈ second, x ≠ y ∧ hash x = hash y

variable {hash join} {value : D} {path below : List (Side × D)} {step : Side × D}
  {first second : List S}

theorem climb_concat :
    climb hash join value (below ++ [step]) =
      hash (joined join (climb hash join value below) step) := by
  induction below generalizing value with
  | nil => rfl
  | cons first rest ih => exact ih

theorem climbed_concat :
    climbed hash join value (below ++ [step]) =
      climbed hash join value below ++ [joined join (climb hash join value below) step] := by
  induction below generalizing value with
  | nil => rfl
  | cons first rest ih => exact congrArg _ ih

theorem Collide.mono (collide : Collide hash first second) {first' second' : List S}
    (firstWithin : first ⊆ first') (secondWithin : second ⊆ second') :
    Collide hash first' second' := by
  obtain ⟨x, inFirst, y, inSecond, different, same⟩ := collide
  exact ⟨x, firstWithin inFirst, y, secondWithin inSecond, different, same⟩

/-- Peels the path from the root, along the tree, down to its start. -/
theorem mem_leaves_of_climb (injective : ∀ a b c d, join a b = join c d → a = c ∧ b = d)
    {string : S} (apart : ∀ a b, string ≠ join a b) (path : List (Side × D))
    (tree : HashTree S) (leavesApart : ∀ leaf ∈ tree.leaves, ∀ a b, leaf ≠ join a b)
    (reaches : climb hash join (hash string) path = tree.digest hash join) :
    string ∈ tree.leaves ∨
      Collide hash (tree.strings hash join)
        (string :: climbed hash join (hash string) path) := by
  induction path using List.reverseRecOn generalizing tree with
  | nil =>
      cases tree with
      | leaf other =>
          by_cases same : other = string
          · exact .inl (by simp [leaves, same])
          · exact .inr ⟨other, by simp [strings], string, by simp, same, reaches.symm⟩
      | node left right =>
          exact .inr ⟨_, List.mem_cons_self, string, by simp, (apart _ _).symm, reaches.symm⟩
  | append_singleton below step ih =>
      rw [climb_concat] at reaches
      have last : joined join (climb hash join (hash string) below) step ∈
          string :: climbed hash join (hash string) (below ++ [step]) := by
        simp [climbed_concat]
      have earlier : string :: climbed hash join (hash string) below ⊆
          string :: climbed hash join (hash string) (below ++ [step]) := by
        rw [climbed_concat]
        exact List.cons_subset_cons _ (List.subset_append_left _ _)
      cases tree with
      | leaf other =>
          have different : other ≠ joined join (climb hash join (hash string) below) step := by
            obtain ⟨side, sibling⟩ := step
            cases side <;> exact leavesApart other (by simp [leaves]) _ _
          exact .inr ⟨other, by simp [strings], _, last, different, reaches.symm⟩
      | node left right =>
          by_cases same : join (left.digest hash join) (right.digest hash join) =
            joined join (climb hash join (hash string) below) step
          · obtain ⟨side, sibling⟩ := step
            cases side with
            | left =>
                have lower := (injective _ _ _ _ same).2
                refine (ih right (fun leaf member => leavesApart leaf ?_) lower.symm).imp ?_ ?_
                · exact List.mem_append_right _ member
                · exact List.mem_append_right _
                · intro collide
                  refine collide.mono (fun _ member => ?_) earlier
                  exact List.mem_cons_of_mem _ (List.mem_append_right _ member)
            | right =>
                have lower := (injective _ _ _ _ same).1
                refine (ih left (fun leaf member => leavesApart leaf ?_) lower.symm).imp ?_ ?_
                · exact List.mem_append_left _ member
                · exact List.mem_append_left _
                · intro collide
                  refine collide.mono (fun _ member => ?_) earlier
                  exact List.mem_cons_of_mem _ (List.mem_append_left _ member)
          · exact .inr ⟨_, List.mem_cons_self, _, last, same, reaches.symm⟩

end Digest

/-! ## Levels -/

/-- The level above, where a last node without a partner is carried up. -/
def pairUp (combine : α → α → α) : List α → List α
  | [] => []
  | [single] => [single]
  | first :: second :: rest => combine first second :: pairUp combine rest

def level (combine : α → α → α) (nodes : List α) : ℕ → List α
  | 0 => nodes
  | above + 1 => level combine (pairUp combine nodes) above

section Levels

variable {combine : α → α → α}

theorem length_pairUp (nodes : List α) :
    (pairUp combine nodes).length = (nodes.length + 1) / 2 := by
  fun_induction pairUp combine nodes with
  | case1 | case2 => simp
  | case3 first second rest ih =>
      simp only [List.length_cons, ih]
      omega

theorem getElem?_pairUp (nodes : List α) (position : ℕ) :
    (pairUp combine nodes)[position]? =
      nodes[2 * position]?.map fun left =>
        match nodes[2 * position + 1]? with
        | some right => combine left right
        | none => left := by
  fun_induction pairUp combine nodes generalizing position with
  | case1 => rfl
  | case2 single => cases position <;> rfl
  | case3 first second rest ih =>
      cases position with
      | zero => rfl
      | succ position => exact ih position

theorem map_pairUp {combine' : β → β → β} {f : α → β}
    (hom : ∀ a b, f (combine a b) = combine' (f a) (f b)) (nodes : List α) :
    (pairUp combine nodes).map f = pairUp combine' (nodes.map f) := by
  fun_induction pairUp combine nodes with
  | case1 | case2 => rfl
  | case3 first second rest ih => simp only [List.map_cons, pairUp, hom, ih]

theorem map_level {combine' : β → β → β} {f : α → β}
    (hom : ∀ a b, f (combine a b) = combine' (f a) (f b)) (nodes : List α) (above : ℕ) :
    (level combine nodes above).map f = level combine' (nodes.map f) above := by
  induction above generalizing nodes with
  | zero => rfl
  | succ above ih => rw [level, level, ih, map_pairUp hom]

/-- Enough levels lead to a single node. -/
theorem length_level {nodes : List α} (nonempty : nodes ≠ []) {above : ℕ}
    (fits : nodes.length ≤ 2 ^ above) : (level combine nodes above).length = 1 := by
  induction above generalizing nodes with
  | zero =>
      have positive := List.length_pos_iff.mpr nonempty
      rw [level]
      omega
  | succ above ih =>
      have size := @length_pairUp _ combine nodes
      have positive := List.length_pos_iff.mpr nonempty
      refine ih (fun empty => ?_) ?_
      · rw [empty, List.length_nil] at size
        omega
      · rw [pow_succ] at fits
        omega

theorem leaves_pairUp (trees : List (HashTree S)) :
    (pairUp node trees).flatMap leaves = trees.flatMap leaves := by
  fun_induction pairUp node trees with
  | case1 | case2 => rfl
  | case3 first second rest ih => simp [leaves, ih]

theorem leaves_level (trees : List (HashTree S)) (above : ℕ) :
    (level node trees above).flatMap leaves = trees.flatMap leaves := by
  induction above generalizing trees with
  | zero => rfl
  | succ above ih => rw [level, ih, leaves_pairUp]

end Levels

end HashTree

end SmartContracts.Data
