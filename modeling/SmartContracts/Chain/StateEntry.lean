import SmartContracts.Chain.Serial

namespace SmartContracts.Chain

open SmartContracts.Data Serialize

/-! # State entries

The chain keeps the state of a contract as entries of bytes.  A contract reads and
writes an entry from a position in it, and writes over what is there.  So a value
that is shorter than the one before it leaves the end of the old one behind it,
unless the entry is cut off first.
-/

/-- How far an entry may grow. -/
def maxEntrySize : ℕ := 2 ^ 31

structure StateEntry where
  bytes : Bytes
  currentPosition : ℕ

namespace StateEntry

def atStart (bytes : Bytes) : StateEntry := { bytes, currentPosition := 0 }

def size (entry : StateEntry) : ℕ := entry.bytes.length

def resize (entry : StateEntry) (newSize : ℕ) : StateEntry where
  bytes := entry.bytes.take newSize ++ List.replicate (newSize - entry.size) 0
  currentPosition := min entry.currentPosition newSize

def truncate (entry : StateEntry) (newSize : ℕ) : StateEntry :=
  if entry.size > newSize then entry.resize newSize else entry

/-- The entry with the bytes written at its position, over what was there. -/
def overwritten (entry : StateEntry) (buf : Bytes) : StateEntry where
  bytes := entry.bytes.take entry.currentPosition ++ buf ++
    entry.bytes.drop (entry.currentPosition + buf.length)
  currentPosition := entry.currentPosition + buf.length

/-- The host writes no further than an entry may grow, and says how far it came. -/
def write (entry : StateEntry) (buf : Bytes) : Option (ℕ × StateEntry) :=
  if entry.currentPosition + buf.length < 2 ^ 32 then
    let numBytes := min buf.length (maxEntrySize - entry.currentPosition)
    some (numBytes, entry.overwritten (buf.take numBytes))
  else none

def writeAll (entry : StateEntry) (buf : Bytes) : Option StateEntry :=
  if _ : buf = [] then some entry
  else
    match entry.write buf with
    | some (written + 1, next) => writeAll next (buf.drop (written + 1))
    | some (0, _) | none => none
termination_by buf.length
decreasing_by
  have := List.length_pos_of_ne_nil ‹_›
  rw [List.length_drop]
  omega

variable {entry after : StateEntry} {buf : Bytes}

theorem maxEntrySize_small : maxEntrySize < 2 ^ 32 := by
  decide

@[simp] theorem writeAll_nil : entry.writeAll [] = some entry := by
  rw [writeAll, dif_pos rfl]

/-- Where no byte is written the loop gives up. -/
theorem writeAll_full (full : maxEntrySize ≤ entry.currentPosition) (more : buf ≠ []) :
    entry.writeAll buf = none := by
  have nothing : min buf.length (maxEntrySize - entry.currentPosition) = 0 := by omega
  rw [writeAll, dif_neg more, write]
  split
  · rename_i wrote
    split at wrote
    · have none : 0 = _ + 1 := nothing.symm.trans (Prod.mk.inj (Option.some.inj wrote)).1
      omega
    · cases wrote
  · rfl
  · rfl

theorem writeAll_of_fits (fits : entry.currentPosition + buf.length ≤ maxEntrySize) :
    entry.writeAll buf = some (entry.overwritten buf) := by
  by_cases none : buf = []
  · subst none
    rw [writeAll_nil]
    simp [overwritten]
  · obtain ⟨count, length⟩ := Nat.exists_eq_add_one.mpr (List.length_pos_of_ne_nil none)
    have whole : min buf.length (maxEntrySize - entry.currentPosition) = count + 1 := by omega
    have small := maxEntrySize_small
    have wrote : entry.write buf = some (count + 1, entry.overwritten buf) := by
      rw [write, if_pos (by omega), whole]
      dsimp only
      rw [List.take_of_length_le length.le]
    rw [writeAll, dif_neg none, wrote]
    dsimp only
    rw [List.drop_of_length_le length.le, writeAll_nil]

theorem writeAll_iff (inside : entry.currentPosition ≤ maxEntrySize) :
    entry.writeAll buf = some after ↔
      entry.currentPosition + buf.length ≤ maxEntrySize ∧ after = entry.overwritten buf := by
  by_cases fits : entry.currentPosition + buf.length ≤ maxEntrySize
  · rw [writeAll_of_fits fits, Option.some.injEq, and_iff_right fits]
    exact eq_comm
  · have some : buf ≠ [] := by
      rintro rfl
      exact fits inside
    have fails : entry.writeAll buf = none := by
      rw [writeAll, dif_neg some, write]
      split
      · rename_i written next wrote
        split at wrote
        · obtain ⟨count, rfl⟩ := Prod.mk.inj (Option.some.inj wrote)
          apply writeAll_full
          · simp only [overwritten, List.length_take]
            omega
          · apply List.ne_nil_of_length_pos
            rw [List.length_drop]
            omega
        · cases wrote
      · rfl
      · rfl
    simp [fails, fits]

theorem overwritten_overwritten (stands : entry.currentPosition ≤ entry.bytes.length)
    (first second : Bytes) :
    (entry.overwritten first).overwritten second = entry.overwritten (first ++ second) := by
  have before : (entry.bytes.take entry.currentPosition ++ first).length =
      entry.currentPosition + first.length := by
    rw [List.length_append, List.length_take_of_le stands]
  simp only [overwritten, List.length_append, StateEntry.mk.injEq, Nat.add_assoc, and_true]
  rw [← Nat.add_assoc, ← before, List.take_left, ← List.append_assoc, List.drop_append,
    List.drop_drop, before, Nat.add_sub_cancel_left, List.drop_of_length_le (by omega),
    List.nil_append, Nat.add_assoc]

/-- A value may as well be written field by field. -/
theorem writeAll_append (stands : entry.currentPosition ≤ entry.bytes.length)
    (inside : entry.bytes.length ≤ maxEntrySize) (first second : Bytes) :
    entry.writeAll (first ++ second) =
      (entry.writeAll first).bind (writeAll · second) := by
  apply Option.ext
  intro after
  rw [writeAll_iff (stands.trans inside), Option.bind_eq_some_iff, List.length_append]
  constructor
  · rintro ⟨fits, rfl⟩
    refine ⟨entry.overwritten first, writeAll_of_fits (by omega), ?_⟩
    rw [← overwritten_overwritten stands]
    apply writeAll_of_fits
    exact (Nat.add_assoc ..).trans_le fits
  · rintro ⟨middle, one, two⟩
    obtain ⟨fits, rfl⟩ := (writeAll_iff (stands.trans inside)).mp one
    obtain ⟨more, rfl⟩ := (writeAll_iff fits).mp two
    rw [overwritten_overwritten stands]
    exact ⟨(Nat.add_assoc ..).symm.trans_le more, rfl⟩

/-! ## Values in entries -/

section Values

variable {α : Type} [serialize : Serialize α] {value : α}

def moveToStart (entry : StateEntry) : StateEntry := { entry with currentPosition := 0 }

/-- `deserial` from an entry, which moves on behind the value. -/
def read (entry : StateEntry) : Option (α × StateEntry) := do
  let (value, rest) ← deserial (entry.bytes.drop entry.currentPosition)
  return (value, { entry with currentPosition := entry.size - rest.length })

/-- `serial` into an entry. -/
def put (entry : StateEntry) (value : α) : Option StateEntry := entry.writeAll (serial value)

/-- Written from the start, over what was there. -/
def overwrite (entry : StateEntry) (value : α) : Option StateEntry := entry.moveToStart.put value

theorem read_iff {bytes : Bytes} :
    (atStart bytes).read = some (value, after) ↔
      (Fits value ∧ serial value <+: bytes) ∧
        after = { bytes, currentPosition := (serial value).length } := by
  rw [read, Option.bind_eq_bind, Option.bind_eq_some_iff]
  constructor
  · rintro ⟨⟨found, rest⟩, taken, made⟩
    obtain ⟨fits, split⟩ := inverts.write_read taken
    obtain ⟨rfl, rfl⟩ := Prod.mk.inj (Option.some.inj made)
    have whole : bytes = serial found ++ rest := split
    have size : (atStart bytes).size = (serial found).length + rest.length := by
      rw [size, atStart, whole, List.length_append]
    rw [size, Nat.add_sub_cancel_right]
    exact ⟨⟨fits, rest, whole.symm⟩, rfl⟩
  · rintro ⟨⟨fits, rest, rfl⟩, rfl⟩
    refine ⟨(value, rest), inverts.read_write rest fits, ?_⟩
    have size : (atStart (serial value ++ rest)).size = (serial value).length + rest.length :=
      List.length_append
    dsimp only
    rw [size, Nat.add_sub_cancel_right]
    rfl

theorem overwrite_iff :
    entry.overwrite value = some after ↔
      (serial value).length ≤ maxEntrySize ∧
        after = { bytes := serial value ++ entry.bytes.drop (serial value).length
                  currentPosition := (serial value).length } := by
  rw [overwrite, put, writeAll_iff (Nat.zero_le _)]
  simp [overwritten, moveToStart]

/-- A fresh entry, or one that was cut off. -/
theorem put_empty_iff :
    (atStart []).put value = some after ↔
      (serial value).length ≤ maxEntrySize ∧
        after = { bytes := serial value, currentPosition := (serial value).length } := by
  have same : (atStart []).put value = (atStart []).overwrite value := rfl
  rw [same, overwrite_iff, atStart, List.drop_nil, List.append_nil]

/-- Nothing is left, and the position has moved back to the start. -/
theorem truncate_zero (stands : entry.currentPosition ≤ entry.size) :
    entry.truncate 0 = atStart [] := by
  unfold truncate
  split
  · simp [resize, atStart]
  · rename_i short
    have none : entry.bytes = [] := List.eq_nil_of_length_eq_zero (Nat.le_zero.mp (not_lt.mp short))
    have start : entry.currentPosition = 0 :=
      Nat.le_zero.mp (stands.trans (not_lt.mp short))
    rw [atStart, ← none, ← start]

end Values

end StateEntry

/-- The value can be written to an entry and read back from it. -/
def Storable {α : Type} [serialize : Serialize α] (value : α) : Prop :=
  Fits value ∧ (serial value).length ≤ maxEntrySize

end SmartContracts.Chain
