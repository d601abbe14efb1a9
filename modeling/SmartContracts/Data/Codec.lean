import Mathlib

namespace SmartContracts.Data

/-! # Values written and read back

A source takes a value off the front of its input.  It inverts a writer when it
finds every value that was written, whatever comes behind, and accepts no other
input: there is one way to write a value, and what was written ends where it
ends.  A format is put together field by field, in the order of the bytes.
-/

abbrev Source (β : Type) := StateT (List β) Option

namespace Source

variable {α β : Type}

def fail : Source β α := fun _ => none

def ofOption : Option α → Source β α
  | some value => pure value
  | none => fail

/-- As many items as are asked for, or none. -/
def readExact (count : ℕ) : Source β (List β) := fun input =>
  if count ≤ input.length then some (input.take count, input.drop count) else none

def readMany (read : Source β α) : ℕ → Source β (List α)
  | 0 => pure []
  | count + 1 => do
      let value ← read
      let rest ← readMany read count
      return value :: rest

end Source

/-- The source finds the values that fit, and only these, from what was written. -/
structure Inverts {α β : Type} (read : Source β α) (write : α → List β) (fits : α → Prop) :
    Prop where
  read_write : ∀ {value} (rest : List β), fits value →
    read (write value ++ rest) = some (value, rest)
  write_read : ∀ {input value rest}, read input = some (value, rest) →
    fits value ∧ input = write value ++ rest

namespace Inverts

variable {α β γ : Type} {read first : Source β α} {next : α → Source β γ}
  {write writeFirst : α → List β} {writeNext : γ → List β}
  {fits fitsFirst : α → Prop} {given fitsNext : γ → Prop}

theorem read_iff (inverts : Inverts read write fits) {input rest : List β} {value : α} :
    read input = some (value, rest) ↔ fits value ∧ input = write value ++ rest := by
  constructor
  · exact inverts.write_read
  · rintro ⟨fit, rfl⟩
    exact inverts.read_write rest fit

theorem of_iff (exact : ∀ input value rest,
    read input = some (value, rest) ↔ fits value ∧ input = write value ++ rest) :
    Inverts read write fits where
  read_write rest fit := (exact _ _ rest).mpr ⟨fit, rfl⟩
  write_read found := (exact _ _ _).mp found

/-- What was written is neither read as another value nor as a longer one. -/
theorem prefix_free (inverts : Inverts read write fits) {value other : α} {rest more : List β}
    (fit : fits value) (fitsOther : fits other)
    (same : write value ++ rest = write other ++ more) : value = other ∧ rest = more := by
  have one := inverts.read_write rest fit
  have two := inverts.read_write more fitsOther
  rw [same, two] at one
  obtain ⟨rfl, rfl⟩ := Prod.mk.inj (Option.some.inj one)
  exact ⟨rfl, rfl⟩

theorem congr {fits' : α → Prop} (inverts : Inverts read write fits)
    (same : ∀ value, fits' value ↔ fits value) : Inverts read write fits' :=
  of_iff fun input value rest => by rw [inverts.read_iff, same]

/-- Nothing is given before the first field. -/
theorem record (inverts : Inverts read write fun value => True ∧ fits value) :
    Inverts read write fits :=
  inverts.congr fun value => (true_and (fits value)).symm.to_iff

theorem exactly (count : ℕ) :
    Inverts (Source.readExact count) (id : List β → List β) (List.length · = count) := by
  apply of_iff
  intro input value rest
  unfold Source.readExact
  constructor
  · intro found
    split at found
    · obtain ⟨rfl, rfl⟩ := Prod.mk.inj (Option.some.inj found)
      exact ⟨by simpa, (List.take_append_drop count input).symm⟩
    · cases found
  · rintro ⟨rfl, rfl⟩
    simp

theorem bind_iff {input rest : List β} {value : γ} :
    (first >>= next) input = some (value, rest) ↔
      ∃ part middle, first input = some (part, middle) ∧
        next part middle = some (value, rest) := by
  constructor
  · intro found
    obtain ⟨⟨part, middle⟩, one, two⟩ := Option.bind_eq_some_iff.mp found
    exact ⟨part, middle, one, two⟩
  · rintro ⟨part, middle, one, two⟩
    exact Option.bind_eq_some_iff.mpr ⟨(part, middle), one, two⟩

/-- A field and what follows it, where the fields before it are given. -/
theorem field (part : γ → α) (head : Inverts first writeFirst fitsFirst)
    (tail : ∀ a, Inverts (next a) writeNext fun value => (given value ∧ part value = a) ∧
      fitsNext value) :
    Inverts (first >>= next) (fun value => writeFirst (part value) ++ writeNext value)
      fun value => given value ∧ fitsFirst (part value) ∧ fitsNext value := by
  apply of_iff
  intro input value rest
  rw [bind_iff]
  constructor
  · rintro ⟨a, middle, one, two⟩
    obtain ⟨fit, rfl⟩ := head.write_read one
    obtain ⟨⟨⟨known, rfl⟩, others⟩, rfl⟩ := (tail a).write_read two
    exact ⟨⟨known, fit, others⟩, (List.append_assoc ..).symm⟩
  · rintro ⟨⟨known, fit, others⟩, rfl⟩
    refine ⟨part value, writeNext value ++ rest, ?_, ?_⟩
    · rw [List.append_assoc]
      exact head.read_write _ fit
    · exact (tail (part value)).read_write rest ⟨⟨known, rfl⟩, others⟩

/-- The last field, with which the value is complete. -/
theorem last (part : γ → α) {make : α → γ} (head : Inverts first writeFirst fitsFirst)
    (complete : ∀ value a, fitsFirst a → (given value ∧ part value = a ↔ value = make a)) :
    Inverts (first >>= fun a => pure (make a)) (fun value => writeFirst (part value))
      fun value => given value ∧ fitsFirst (part value) := by
  apply of_iff
  intro input value rest
  rw [bind_iff]
  constructor
  · rintro ⟨a, middle, one, two⟩
    obtain ⟨fit, rfl⟩ := head.write_read one
    obtain ⟨rfl, rfl⟩ := Prod.mk.inj (Option.some.inj two)
    obtain ⟨known, same⟩ := (complete (make a) a fit).mpr rfl
    rw [same]
    exact ⟨⟨known, fit⟩, rfl⟩
  · rintro ⟨⟨known, fit⟩, rfl⟩
    have whole := (complete value (part value) fit).mp ⟨known, rfl⟩
    refine ⟨part value, rest, head.read_write rest fit, ?_⟩
    rw [← whole]
    rfl

/-- A value that stands for another one, as a word stands for its bytes. -/
theorem via {view : γ → α} {make : α → Option γ} (inverts : Inverts read write fits)
    (exact : ∀ a value, fits a → (make a = some value ↔ view value = a)) :
    Inverts (read >>= fun a => Source.ofOption (make a)) (write ∘ view) (fits ∘ view) := by
  apply of_iff
  intro input value rest
  rw [bind_iff]
  constructor
  · rintro ⟨a, middle, one, two⟩
    obtain ⟨fit, rfl⟩ := inverts.write_read one
    cases made : make a with
    | none =>
        rw [made] at two
        cases two
    | some other =>
        rw [made] at two
        obtain ⟨rfl, rfl⟩ := Prod.mk.inj (Option.some.inj two)
        obtain rfl := (exact a other fit).mp made
        exact ⟨fit, rfl⟩
  · rintro ⟨fit, rfl⟩
    refine ⟨view value, rest, inverts.read_write rest fit, ?_⟩
    rw [(exact _ value fit).mpr rfl]
    rfl

theorem many (inverts : Inverts read write fits) (count : ℕ) :
    Inverts (Source.readMany read count) (List.flatMap write)
      fun values => values.length = count ∧ ∀ value ∈ values, fits value := by
  apply of_iff
  induction count with
  | zero =>
      intro input values rest
      constructor
      · intro found
        obtain ⟨rfl, rfl⟩ := Prod.mk.inj (Option.some.inj found)
        exact ⟨⟨rfl, fun _ none => absurd none List.not_mem_nil⟩, rfl⟩
      · rintro ⟨⟨none, _⟩, rfl⟩
        rw [List.length_eq_zero_iff.mp none]
        rfl
  | succ count ih =>
      intro input values rest
      rw [Source.readMany, bind_iff]
      constructor
      · rintro ⟨value, middle, one, more⟩
        obtain ⟨others, after, two, made⟩ := bind_iff.mp more
        obtain ⟨fit, rfl⟩ := inverts.write_read one
        obtain ⟨⟨length, each⟩, rfl⟩ := (ih _ _ _).mp two
        obtain ⟨rfl, rfl⟩ := Prod.mk.inj (Option.some.inj made)
        refine ⟨⟨congrArg Nat.succ length, List.forall_mem_cons.mpr ⟨fit, each⟩⟩, ?_⟩
        rw [List.flatMap_cons, List.append_assoc]
      · rintro ⟨⟨length, each⟩, rfl⟩
        obtain ⟨value, others, rfl⟩ := List.exists_cons_of_length_eq_add_one length
        obtain ⟨fit, later⟩ := List.forall_mem_cons.mp each
        refine ⟨value, others.flatMap write ++ rest, ?_, bind_iff.mpr ⟨others, rest, ?_, rfl⟩⟩
        · rw [List.flatMap_cons, List.append_assoc]
          exact inverts.read_write _ fit
        · exact (ih _ _ _).mpr ⟨⟨Nat.succ.inj length, later⟩, rfl⟩

end Inverts

end SmartContracts.Data
