import SmartContracts.Crypto.Residues
import SmartContracts.Data.Lists
import SmartContracts.OffChain.Keys
import SmartContracts.Voting.Contract

namespace SmartContracts.Voting

open SmartContracts.Algebra SmartContracts.Crypto SmartContracts.Data SmartContracts.OffChain

/-! # Self-tallying

The brute-force loop runs for as many turns as the discrete logarithm of the
sum of the votes.  When every voter blinds with their reconstructed key the
blinding cancels in that sum, and the logarithm is the number of yes votes.
-/

variable {crypto : Primitives}

theorem bruteForceTally_log {votes : List crypto.Point} (nonempty : votes ≠ []) {k : ℕ}
    (bounded : k < crypto.curve.order) (log : k • crypto.curve.generator = votes.sum)
    (energy : ℕ) :
    bruteForceTally crypto energy votes =
      if k ≤ energy then some (Int32.ofNat k) else none := by
  have prime := crypto.curve.prime
  rw [bruteForceTally_eq nonempty]
  split
  · rename_i enough
    have stops := crypto.curve.generates.stepsTo_zero.mpr ⟨enough, bounded, log⟩
    rw [stops]
    rfl
  · rename_i short
    cases stops : stepsTo crypto.curve.generator votes.sum energy 0 with
    | none => rfl
    | some steps =>
        obtain ⟨within, small, reached⟩ := crypto.curve.generates.stepsTo_zero.mp stops
        have same := (crypto.curve.generates.nsmul_inj small bounded).mp (reached.trans log.symm)
        omega

/-- A vote blinded with the reconstructed key: g^xy g^v. -/
def castVote (crypto : Primitives) (keys : List crypto.Point) (x : crypto.Scalar)
    (choice : Bool) : Option crypto.Point := do
  let gY ← computeReconstructedKey crypto keys (x • crypto.curve.generator)
  return x • gY + choice.toNat • crypto.curve.generator

/-- Blinded zeros and ones, in which the blinding cancels. -/
def Cancelling (crypto : Primitives) (choices : List Bool) (votes : List crypto.Point) : Prop :=
  ∃ blinding : List crypto.Point, blinding.length = choices.length ∧ blinding.sum = 0 ∧
    votes = List.zipWith (· + ·) blinding (choices.map (·.toNat • crypto.curve.generator))

theorem yesVotes_le (choices : List Bool) : (choices.map Bool.toNat).sum ≤ choices.length := by
  have each : ∀ vote ∈ choices.map Bool.toNat, vote ≤ 1 := by
    intro vote member
    obtain ⟨choice, _, rfl⟩ := List.mem_map.mp member
    exact choice.toNat_le
  have counted := List.sum_le_card_nsmul _ 1 each
  simpa using counted

namespace Cancelling

variable {choices : List Bool} {votes : List crypto.Point}

theorem length (cancelling : Cancelling crypto choices votes) : votes.length = choices.length := by
  obtain ⟨blinding, sizes, _, rfl⟩ := cancelling
  simp [sizes]

/-- What is left of the sum is the number of yes votes. -/
theorem sum (cancelling : Cancelling crypto choices votes) :
    (choices.map Bool.toNat).sum • crypto.curve.generator = votes.sum := by
  obtain ⟨blinding, sizes, cancels, rfl⟩ := cancelling
  have plain : (choices.map (·.toNat • crypto.curve.generator)).sum =
      (choices.map Bool.toNat).sum • crypto.curve.generator := by
    rw [List.sum_smul, List.map_map]
    rfl
  rw [← List.sum_add_sum_eq_sum_zipWith_of_length_eq _ _ (by simpa using sizes), cancels, plain,
    zero_add]

end Cancelling

/-! ## Blinding with the reconstructed keys -/

/-- The stored reconstructed key is the one made of these voting keys, and the stored
vote is a choice blinded with it and with the secret of the stored voting key. -/
structure Voter.Blinded (crypto : Primitives) (keys : List crypto.Point) (x : crypto.Scalar)
    (choice : Bool) (voter : Voter) : Prop where
  votingKey : crypto.convertVecToPoint voter.votingKey = some (x • crypto.curve.generator)
  vote : ∃ gY, computeReconstructedKey crypto keys (x • crypto.curve.generator) = some gY ∧
    crypto.convertVecToPoint voter.reconstructedKey = some gY ∧
    crypto.convertVecToPoint voter.vote = some (x • gY + choice.toNat • crypto.curve.generator)

section Reconstructed

variable {α : Type*} {members : List α} {secret : α → crypto.Scalar}
  (several : 2 ≤ members.length)
  (distinct : (members.map (secret · • crypto.curve.generator)).Nodup)

include several distinct

theorem map_computeReconstructedKey :
    (members.map fun member => computeReconstructedKey crypto
        (members.map (secret · • crypto.curve.generator))
        (secret member • crypto.curve.generator)) =
      (blindings 0 (members.map (secret · • crypto.curve.generator))).map some := by
  apply List.ext_getElem
  · simp
  · intro position inside present
    have inKeys : position < (members.map (secret · • crypto.curve.generator)).length := by
      simpa using inside
    have reconstructed := computeReconstructedKey_eq distinct (by simpa using several) inKeys
    rw [List.getElem_map] at reconstructed
    rw [List.getElem_map, List.getElem_map, reconstructed, List.getElem?_eq_getElem]

theorem computeReconstructedKey_of_mem {member : α} (inside : member ∈ members) :
    ∃ gY, computeReconstructedKey crypto (members.map (secret · • crypto.curve.generator))
      (secret member • crypto.curve.generator) = some gY := by
  have found := List.mem_map_of_mem (f := fun member => computeReconstructedKey crypto
    (members.map (secret · • crypto.curve.generator)) (secret member • crypto.curve.generator))
    inside
  rw [map_computeReconstructedKey several distinct] at found
  obtain ⟨gY, _, same⟩ := List.mem_map.mp found
  exact ⟨gY, same.symm⟩

/-- All ballots together are blinded by nothing. -/
theorem cancelling_of_reconstructed {gY : α → crypto.Point}
    (reconstructed : ∀ member ∈ members, computeReconstructedKey crypto
      (members.map (secret · • crypto.curve.generator)) (secret member • crypto.curve.generator) =
        some (gY member)) (choice : α → Bool) :
    Cancelling crypto (members.map choice) (members.map fun member =>
      secret member • gY member + (choice member).toNat • crypto.curve.generator) := by
  have blinds : members.map gY =
      blindings 0 (members.map (secret · • crypto.curve.generator)) := by
    apply (Option.some_injective _).list_map
    rw [← map_computeReconstructedKey several distinct, List.map_map]
    exact (List.map_congr_left reconstructed).symm
  refine ⟨List.zipWith (· • ·) (members.map secret) (members.map gY), by simp, ?_, ?_⟩
  · have cancels := sum_blindings (members.map secret) 0 crypto.curve.generator
    rw [zero_smul, zero_mul, zero_smul, List.map_map] at cancels
    rw [blinds]
    exact cancels
  · rw [List.zipWith_map, List.zipWith_self, List.map_map, List.zipWith_map, List.zipWith_self]
    rfl

theorem castVote_cancelling (choice : α → Bool) :
    ∃ ballots, members.mapM (fun member => castVote crypto
        (members.map (secret · • crypto.curve.generator)) (secret member) (choice member)) =
        some ballots ∧
      Cancelling crypto (members.map choice) ballots := by
  have reconstructed : ∀ member ∈ members, computeReconstructedKey crypto
      (members.map (secret · • crypto.curve.generator)) (secret member • crypto.curve.generator) =
        some ((computeReconstructedKey crypto (members.map (secret · • crypto.curve.generator))
          (secret member • crypto.curve.generator)).getD 0) := by
    intro member inside
    obtain ⟨gY, found⟩ := computeReconstructedKey_of_mem several distinct inside
    rw [found, Option.getD_some]
  refine ⟨_, mapM_eq_map fun member inside => ?_,
    cancelling_of_reconstructed several distinct reconstructed choice⟩
  rw [castVote, reconstructed member inside]
  rfl

/-- What such records hold of the votes, decoded. -/
theorem cancelling_of_blinded {record : α → Voter} {choice : α → Bool}
    (blinded : ∀ member ∈ members, (record member).Blinded crypto
      (members.map (secret · • crypto.curve.generator)) (secret member) (choice member)) :
    ∃ ballots, (members.map record).mapM (fun v => crypto.convertVecToPoint v.vote) =
        some ballots ∧
      Cancelling crypto (members.map choice) ballots := by
  have points : ∀ member, ∃ gY, member ∈ members →
      computeReconstructedKey crypto (members.map (secret · • crypto.curve.generator))
          (secret member • crypto.curve.generator) = some gY ∧
        crypto.convertVecToPoint (record member).vote =
          some (secret member • gY + (choice member).toNat • crypto.curve.generator) := by
    intro member
    by_cases inside : member ∈ members
    · obtain ⟨gY, computed, _, vote⟩ := (blinded member inside).vote
      exact ⟨gY, fun _ => ⟨computed, vote⟩⟩
    · exact ⟨0, fun listed => absurd listed inside⟩
  choose gY reconstructed using points
  refine ⟨_, ?_, cancelling_of_reconstructed several distinct
    (fun member inside => (reconstructed member inside).1) choice⟩
  rw [List.mapM_map]
  exact mapM_eq_map fun member inside => (reconstructed member inside).2

end Reconstructed

/-- Whatever order the blinded votes are added in, the loop stops after as many
turns as there are yes votes and returns that number. -/
theorem self_tally {secrets : List crypto.Scalar} {choices : List Bool}
    (several : 2 ≤ secrets.length) (bounded : secrets.length < min crypto.curve.order (2 ^ 31))
    (distinct : (secrets.map (· • crypto.curve.generator)).Nodup)
    (complete : choices.length = secrets.length) :
    let keys := secrets.map (· • crypto.curve.generator)
    let yesVotes := (choices.map Bool.toNat).sum
    ∃ ballots, (secrets.zip choices).mapM (fun (x, choice) => castVote crypto keys x choice) =
        some ballots ∧
      ∀ votes : List crypto.Point, votes.Perm ballots →
        (∀ energy < yesVotes, bruteForceTally crypto energy votes = none) ∧
        ∀ energy ≥ yesVotes, ∃ tally, bruteForceTally crypto energy votes = some tally ∧
          tally.toInt = yesVotes := by
  intro keys yesVotes
  have first : (secrets.zip choices).map Prod.fst = secrets := List.map_fst_zip complete.ge
  have second : (secrets.zip choices).map Prod.snd = choices := List.map_snd_zip complete.le
  have size : (secrets.zip choices).length = secrets.length := by
    rw [← List.length_map Prod.fst, first]
  have own : (secrets.zip choices).map (fun member => member.1 • crypto.curve.generator) = keys :=
    List.map_map.symm.trans (congrArg (List.map (· • crypto.curve.generator)) first)
  obtain ⟨ballots, cast, cancelling⟩ := @castVote_cancelling crypto _ (secrets.zip choices)
    Prod.fst (size.symm ▸ several) (own.symm ▸ distinct) Prod.snd
  rw [own] at cast
  rw [second] at cancelling
  refine ⟨ballots, cast, fun votes reordered => ?_⟩
  have total : yesVotes • crypto.curve.generator = votes.sum := by
    rw [cancelling.sum, reordered.sum_eq]
  have few : yesVotes ≤ choices.length := yesVotes_le choices
  have nonempty : votes ≠ [] := by
    intro empty
    have size := reordered.length_eq
    rw [cancelling.length, empty, List.length_nil] at size
    omega
  have tallies := bruteForceTally_log nonempty (by omega) total
  refine ⟨fun energy short => by rw [tallies, if_neg (by omega)], fun energy enough => ?_⟩
  exact ⟨Int32.ofNat yesVotes, by rw [tallies, if_pos enough],
    Int32.toInt_ofNat_of_lt (by omega)⟩

theorem self_tally_three_voters :
    let secrets : List smallPrimitives.Scalar := [2, 3, 5]
    let keys := secrets.map (· • smallPrimitives.curve.generator)
    ∃ ballots, (secrets.zip [true, false, true]).mapM
        (fun (x, choice) => castVote smallPrimitives keys x choice) = some ballots ∧
      ∃ tally, bruteForceTally smallPrimitives 2 ballots = some tally ∧ tally.toInt = 2 := by
  intro secrets keys
  obtain ⟨ballots, cast, tallies⟩ := @self_tally smallPrimitives secrets [true, false, true]
    (by decide) (by decide) (by decide) rfl
  exact ⟨ballots, cast, (tallies ballots (List.Perm.refl ballots)).2 2 (by decide)⟩

end SmartContracts.Voting
