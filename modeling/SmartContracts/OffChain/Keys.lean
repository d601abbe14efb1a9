import SmartContracts.Crypto.Util

namespace SmartContracts.OffChain

open SmartContracts.Algebra SmartContracts.Crypto

/-! # Reconstructed keys

A voter's reconstructed key is the sum of the voting keys before theirs minus
the sum of those after it.  The code treats the first, the last and the middle
positions apart; for two voters or more all three are that one formula.
-/

variable (crypto : Primitives)

/-- One turn of the loop over the keys strictly between the first and the last. -/
def addKey (position : ℕ) (points : crypto.Point × crypto.Point) (entry : crypto.Point × ℕ) :
    crypto.Point × crypto.Point :=
  let (beforePoints, afterPoints) := points
  let (key, j) := entry
  if j = position then (beforePoints, afterPoints)
  else if j < position then (beforePoints + key, afterPoints)
  else (beforePoints, afterPoints + key)

/-- Compute a voter's reconstructed key (g^y) from their voting key (g^x) and
all other voting keys in a given vote; `none` is a panic. -/
def computeReconstructedKey (keys : List crypto.Point) (gX : crypto.Point) :
    Option crypto.Point := do
  let position ← keys.findIdx? (· = gX)
  let first ← keys.head?
  let last ← keys.getLast?
  let between := (keys.zipIdx.drop 1).dropLast
  if position = 0 then
    return -(between.foldl (fun afterPoints entry => afterPoints + entry.1) last)
  else
    let (beforePoints, afterPoints) := between.foldl (addKey crypto position) (first, last)
    if position = keys.length - 1 then return beforePoints
    else return beforePoints - afterPoints

variable {crypto}

theorem foldl_addKey (between : List crypto.Point) (offset position : ℕ)
    (beforePoints afterPoints : crypto.Point) :
    (between.zipIdx offset).foldl (addKey crypto position) (beforePoints, afterPoints) =
      (beforePoints + (between.take (position - offset)).sum,
        afterPoints + (between.drop (position + 1 - offset)).sum) := by
  induction between generalizing offset beforePoints afterPoints with
  | nil => simp
  | cons key rest ih =>
      rw [List.zipIdx_cons, List.foldl_cons]
      rcases Nat.lt_trichotomy offset position with before | own | after
      · have taken : position - offset = (position - (offset + 1)) + 1 := by omega
        have dropped : position + 1 - offset = (position + 1 - (offset + 1)) + 1 := by omega
        rw [addKey, if_neg (by omega), if_pos before, ih, taken, dropped]
        simp [add_assoc]
      · subst own
        rw [addKey, if_pos rfl, ih]
        simp
      · have taken : position - offset = 0 := by omega
        have alsoTaken : position - (offset + 1) = 0 := by omega
        have dropped : position + 1 - offset = 0 := by omega
        have alsoDropped : position + 1 - (offset + 1) = 0 := by omega
        rw [addKey, if_neg (by omega), if_neg (by omega), ih, taken, alsoTaken, dropped,
          alsoDropped]
        simp [add_assoc]

theorem foldl_sum (between : List (crypto.Point × ℕ)) (last : crypto.Point) :
    between.foldl (fun afterPoints entry => afterPoints + entry.1) last =
      last + (between.map Prod.fst).sum := by
  induction between generalizing last with
  | nil => simp
  | cons entry rest ih => simp [ih, add_assoc]

theorem findIdx?_of_nodup {keys : List crypto.Point} (distinct : keys.Nodup) {position : ℕ}
    (inside : position < keys.length) :
    keys.findIdx? (· = keys[position]) = some position := by
  rw [List.findIdx?_eq_some_iff_getElem]
  refine ⟨inside, by simp, fun other earlier => ?_⟩
  have different : keys[other] ≠ keys[position] := fun same =>
    Nat.ne_of_lt earlier (distinct.getElem_inj_iff.mp same)
  simpa using different

/-- All three cases are one formula, for distinct keys of at least two voters. -/
theorem computeReconstructedKey_eq {keys : List crypto.Point} (distinct : keys.Nodup)
    (several : 2 ≤ keys.length) {position : ℕ} (inside : position < keys.length) :
    computeReconstructedKey crypto keys keys[position] = (blindings 0 keys)[position]? := by
  have found := findIdx?_of_nodup distinct inside
  rw [getElem?_blindings inside, computeReconstructedKey, found]
  clear found
  match keys, several with
  | first :: second :: rest, _ =>
      obtain ⟨between, last, ends⟩ :=
        List.eq_nil_or_concat' (second :: rest) |>.resolve_left (by simp)
      simp only [ends] at inside ⊢
      have loop : ((first :: (between ++ [last])).zipIdx.drop 1).dropLast =
          between.zipIdx 1 := by
        rw [List.zipIdx_cons, List.drop_one, List.tail_cons, List.zipIdx_append]
        exact List.dropLast_concat
      have lastKey : (first :: (between ++ [last])).getLast? = some last := by
        rw [← List.cons_append, List.getLast?_concat]
      have size : (first :: (between ++ [last])).length = between.length + 2 := by simp
      simp only [Option.bind_eq_bind, Option.bind_some, List.head?_cons, lastKey, loop]
      cases position with
      | zero =>
          rw [if_pos rfl, foldl_sum]
          simp [add_comm]
      | succ position =>
          rw [if_neg (Nat.succ_ne_zero position), foldl_addKey, size]
          rw [size] at inside
          rcases Nat.lt_or_ge position between.length with middle | atEnd
          · have taken : (first :: (between ++ [last])).take (position + 1) =
                first :: between.take position := by
              rw [List.take_succ_cons, List.take_append_of_le_length (Nat.le_of_lt middle)]
            have dropped : (first :: (between ++ [last])).drop (position + 1 + 1) =
                between.drop (position + 1) ++ [last] := by
              rw [List.drop_succ_cons, List.drop_append_of_le_length middle]
            rw [if_neg (by omega), taken, dropped]
            simp [add_comm]
          · have same : position = between.length := by omega
            subst same
            have dropped : (first :: (between ++ [last])).drop (between.length + 1 + 1) = [] :=
              List.drop_eq_nil_of_le (by simp)
            rw [if_pos (by omega), dropped]
            simp

end SmartContracts.OffChain
