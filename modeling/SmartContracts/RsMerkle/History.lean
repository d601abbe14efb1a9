import SmartContracts.RsMerkle.Growing
import SmartContracts.Semantics.Runs

namespace SmartContracts.RsMerkle

open SmartContracts.Chain SmartContracts.Crypto SmartContracts.Data SmartContracts.Semantics

/-! # Commits and rollbacks

`MerkleTree` with its history.  Every commit is kept as the part of the tree it
was built with, and a rollback merges all parts but the last again.  What the
tree is for is said by the ledger: batches of leaves that were committed, and
the leaves that wait.
-/

structure RecordedTree extends MerkleTree where
  history : List (List Layer)

inductive TreeCall where
  | insert (leaf : Hash)
  | append (leaves : List Hash)
  | commit
  | rollback
  | abortUncommitted

namespace RecordedTree

def new : RecordedTree := { MerkleTree.new with history := [] }

def insert (tree : RecordedTree) (leaf : Hash) : RecordedTree :=
  { tree with uncommittedLeaves := tree.uncommittedLeaves ++ [leaf] }

def append (tree : RecordedTree) (leaves : List Hash) : RecordedTree :=
  { tree with uncommittedLeaves := tree.uncommittedLeaves ++ leaves }

/-- Removes the most recent commit and applies those up to it again. -/
def rollback (tree : RecordedTree) : RecordedTree :=
  let history := tree.history.dropLast
  { tree with layerTuples := history.foldl mergeUnverified [], history := history }

def abortUncommitted (tree : RecordedTree) : RecordedTree := { tree with uncommittedLeaves := [] }

section Commit

variable (hash : Bytes → Hash)

def commit (tree : RecordedTree) : RecordedTree :=
  match tree.uncommittedDiff hash with
  | some diff =>
      { layerTuples := mergeUnverified tree.layerTuples diff
        uncommittedLeaves := []
        history := tree.history ++ [diff] }
  | none => tree

def uncommittedRoot (tree : RecordedTree) : Option Hash := do
  let shadowTree ← tree.uncommittedDiff hash
  treeRoot shadowTree

def call (tree : RecordedTree) : TreeCall → RecordedTree
  | .insert leaf => tree.insert leaf
  | .append leaves => tree.append leaves
  | .commit => tree.commit hash
  | .rollback => tree.rollback
  | .abortUncommitted => tree.abortUncommitted

end Commit

end RecordedTree

/-! ## The ledger -/

structure Ledger where
  batches : List (List Hash)
  pending : List Hash

namespace Ledger

def new : Ledger := { batches := [], pending := [] }

/-- All leaves that were committed and not rolled back. -/
def committed (ledger : Ledger) : List Hash := ledger.batches.flatten

/-- A commit without leaves is none; a rollback leaves what waits alone. -/
def call (ledger : Ledger) : TreeCall → Ledger
  | .insert leaf => { ledger with pending := ledger.pending ++ [leaf] }
  | .append leaves => { ledger with pending := ledger.pending ++ leaves }
  | .commit =>
      if ledger.pending = [] then ledger
      else { batches := ledger.batches ++ [ledger.pending], pending := [] }
  | .rollback => { ledger with batches := ledger.batches.dropLast }
  | .abortUncommitted => { ledger with pending := [] }

end Ledger

def TreeCall.leaves : TreeCall → List Hash
  | .insert leaf => [leaf]
  | .append leaves => leaves
  | .commit | .rollback | .abortUncommitted => []

/-- No call brings in leaves but those it names. -/
theorem ledger_step (ledger : Ledger) (call : TreeCall) :
    ((ledger.call call).committed ++ (ledger.call call).pending).length ≤
      (ledger.committed ++ ledger.pending).length + call.leaves.length := by
  cases call with
  | insert leaf => simp [Ledger.call, Ledger.committed, TreeCall.leaves, Nat.add_assoc]
  | append leaves => simp [Ledger.call, Ledger.committed, TreeCall.leaves, Nat.add_assoc]
  | commit =>
      rw [Ledger.call]
      split <;> simp [Ledger.committed, TreeCall.leaves]
  | rollback =>
      have fewer := (List.dropLast_sublist ledger.batches).flatten.length_le
      simpa [Ledger.call, Ledger.committed, TreeCall.leaves] using fewer
  | abortUncommitted => simp [Ledger.call, Ledger.committed, TreeCall.leaves]

theorem ledger_run (calls : List TreeCall) :
    ((run Ledger.call .new calls).committed ++ (run Ledger.call .new calls).pending).length ≤
      (calls.flatMap TreeCall.leaves).length := by
  induction calls using List.reverseRecOn with
  | nil => simp [Ledger.new, Ledger.committed]
  | append_singleton calls last ih =>
      rw [run_snoc, List.flatMap_append, List.flatMap_singleton]
      apply (ledger_step (run Ledger.call .new calls) last).trans
      exact (Nat.add_le_add_right ih _).trans (Nat.le_of_eq List.length_append.symm)

/-! ## Trees and ledgers -/

variable {hash : Bytes → Hash}

variable (hash) in
/-- The tree over what is committed, and those over every earlier version. -/
structure Represents (tree : RecordedTree) (ledger : Ledger) : Prop where
  working : tree.layerTuples = (MerkleTree.fromLeaves hash ledger.committed).layerTuples
  pending : tree.uncommittedLeaves = ledger.pending
  versions : tree.history.length = ledger.batches.length
  version : ∀ count, (tree.history.take count).foldl mergeUnverified [] =
    (MerkleTree.fromLeaves hash (ledger.batches.take count).flatten).layerTuples

namespace Represents

variable {tree : RecordedTree} {ledger : Ledger}

theorem initially : Represents hash .new .new where
  working := rfl
  pending := rfl
  versions := rfl
  version count := by
    cases count <;> rfl

theorem waiting (before : Represents hash tree ledger) (leaves : List Hash) :
    Represents hash { tree with uncommittedLeaves := leaves } { ledger with pending := leaves } :=
  ⟨before.working, rfl, before.versions, before.version⟩

theorem rollback (before : Represents hash tree ledger) :
    Represents hash tree.rollback (ledger.call .rollback) := by
  have versions := before.versions
  have earlier : ∀ count, (tree.history.dropLast.take count).foldl mergeUnverified [] =
      (MerkleTree.fromLeaves hash (ledger.batches.dropLast.take count).flatten).layerTuples := by
    intro count
    rw [List.dropLast_eq_take, List.dropLast_eq_take, List.take_take, List.take_take, versions]
    exact before.version _
  refine ⟨?_, before.pending, ?_, earlier⟩
  · have whole := earlier tree.history.length
    rw [List.take_of_length_le (by simp), List.take_of_length_le (by simp [versions])] at whole
    exact whole
  · simp [RecordedTree.rollback, Ledger.call, versions]

section Diff

variable (before : Represents hash tree ledger)
  (fits : (ledger.committed ++ ledger.pending).length < 2 ^ 31) (waits : ledger.pending ≠ [])

include before fits waits

theorem diff : ∃ diff, tree.uncommittedDiff hash = some diff ∧
    treeRoot diff = (MerkleTree.fromLeaves hash (ledger.committed ++ ledger.pending)).root ∧
    mergeUnverified tree.layerTuples diff =
      (MerkleTree.fromLeaves hash (ledger.committed ++ ledger.pending)).layerTuples := by
  have more := @pending_more tree.toMerkleTree ledger.committed (before.pending.symm ▸ waits)
  obtain ⟨working, pending, _, _⟩ := before
  rw [← pending] at fits waits ⊢
  have nonempty : ledger.committed ++ tree.uncommittedLeaves ≠ [] := by simp [waits]
  obtain ⟨root, top, stored⟩ := @root_fromLeaves hash _ nonempty fits
  refine ⟨_, uncommittedDiff_added working waits fits, ?_, mergeUnverified_added working waits fits⟩
  rw [stored]
  exact treeRoot_partialLayers added_ascending (added_ne_nil more) added_inside top

theorem commit : Represents hash (tree.commit hash) (ledger.call .commit) := by
  obtain ⟨diff, made, _, merged⟩ := before.diff fits waits
  obtain ⟨working, pending, versions, version⟩ := before
  have committed : tree.commit hash =
      { layerTuples := mergeUnverified tree.layerTuples diff
        uncommittedLeaves := []
        history := tree.history ++ [diff] } := by
    simp only [RecordedTree.commit, made]
  have entered : ledger.call .commit =
      { batches := ledger.batches ++ [ledger.pending], pending := [] } := by
    simp only [Ledger.call, if_neg waits]
  have whole : (tree.history ++ [diff]).foldl mergeUnverified [] =
      (MerkleTree.fromLeaves hash (ledger.batches ++ [ledger.pending]).flatten).layerTuples := by
    have current := version tree.history.length
    rw [List.take_length, versions, List.take_length] at current
    rw [List.foldl_append, current, List.flatten_append, List.flatten_singleton, ← Ledger.committed,
      ← merged, working]
    rfl
  rw [committed, entered]
  refine ⟨?_, rfl, ?_, fun count => ?_⟩
  · rw [merged, Ledger.committed, Ledger.committed, List.flatten_append, List.flatten_singleton]
  · simp [versions]
  · by_cases earlier : count ≤ tree.history.length
    · rw [List.take_append_of_le_length earlier,
        List.take_append_of_le_length (versions ▸ earlier)]
      exact version count
    · have longer : tree.history.length + 1 ≤ count := by omega
      rw [List.take_of_length_le (by simpa using longer),
        List.take_of_length_le (by simpa [← versions] using longer)]
      exact whole

end Diff

theorem call (before : Represents hash tree ledger)
    (fits : (ledger.committed ++ ledger.pending).length < 2 ^ 31) (call : TreeCall) :
    Represents hash (tree.call hash call) (ledger.call call) := by
  cases call with
  | insert leaf =>
      rw [RecordedTree.call, RecordedTree.insert, Ledger.call, ← before.pending]
      exact before.waiting _
  | append leaves =>
      rw [RecordedTree.call, RecordedTree.append, Ledger.call, ← before.pending]
      exact before.waiting _
  | commit =>
      by_cases none : ledger.pending = []
      · have nothing : tree.uncommittedDiff hash = .none :=
          if_pos (before.pending.trans none)
        have unchanged : tree.commit hash = tree := by
          simp only [RecordedTree.commit, nothing]
        rw [RecordedTree.call, unchanged, Ledger.call, if_pos none]
        exact before
      · exact before.commit fits none
  | rollback => exact before.rollback
  | abortUncommitted => exact before.waiting []

end Represents

theorem represents_run {calls : List TreeCall}
    (fits : (calls.flatMap TreeCall.leaves).length < 2 ^ 31) :
    Represents hash (run (RecordedTree.call hash) .new calls) (run Ledger.call .new calls) := by
  induction calls using List.reverseRecOn with
  | nil => exact Represents.initially
  | append_singleton calls last ih =>
      rw [List.flatMap_append, List.length_append] at fits
      have size := ledger_run calls
      rw [run_snoc, run_snoc]
      exact (ih (by omega)).call (by omega) last

/-- Whatever is inserted, committed and rolled back, the tree is the one over the
leaves of the ledger, and the root announced for the uncommitted leaves is the
root of the tree with them. -/
theorem tree_of_run {calls : List TreeCall}
    (fits : (calls.flatMap TreeCall.leaves).length < 2 ^ 31) :
    let tree := run (RecordedTree.call hash) .new calls
    let ledger := run Ledger.call .new calls
    tree.layerTuples = (MerkleTree.fromLeaves hash ledger.committed).layerTuples ∧
    tree.uncommittedLeaves = ledger.pending ∧
    tree.uncommittedRoot hash =
      if ledger.pending = [] then none
      else (MerkleTree.fromLeaves hash (ledger.committed ++ ledger.pending)).root := by
  intro tree ledger
  have represents : Represents hash tree ledger := represents_run fits
  refine ⟨represents.working, represents.pending, ?_⟩
  by_cases none : ledger.pending = []
  · rw [if_pos none, RecordedTree.uncommittedRoot, MerkleTree.uncommittedDiff,
      if_pos (represents.pending.trans none)]
    rfl
  · obtain ⟨diff, made, root, _⟩ :=
      represents.diff ((ledger_run calls).trans_lt fits) none
    rw [if_neg none, RecordedTree.uncommittedRoot, made, ← root]
    rfl

/-- Two commits, the second of them rolled back, and a leaf that waits. -/
def Small.calls : List TreeCall :=
  [.append Small.fiveLeaves, .commit, .insert (hashOf 9), .commit, .rollback, .insert (hashOf 2)]

theorem tree_of_run_rollback :
    let tree := run (RecordedTree.call (checksum 101)) .new Small.calls
    let ledger := run Ledger.call .new Small.calls
    tree.layerTuples = (MerkleTree.fromLeaves (checksum 101) ledger.committed).layerTuples ∧
    tree.uncommittedLeaves = ledger.pending ∧
    tree.uncommittedRoot (checksum 101) =
      if ledger.pending = [] then none
      else (MerkleTree.fromLeaves (checksum 101) (ledger.committed ++ ledger.pending)).root :=
  @tree_of_run (checksum 101) Small.calls (by decide)

end SmartContracts.RsMerkle
