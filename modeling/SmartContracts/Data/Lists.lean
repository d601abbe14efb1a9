import Mathlib

namespace SmartContracts.Data

/-! # Lists

A function that can fail gives a list of results just where it gives one for every
member.
-/

variable {α β : Type*}

section Attempts

variable {f : α → Option β} {inputs : List α} {outputs : List β}

theorem mapM_eq_some : inputs.mapM f = some outputs ↔ inputs.map f = outputs.map some := by
  induction inputs generalizing outputs with
  | nil => cases outputs <;> simp
  | cons input rest ih =>
      simp only [List.mapM_cons, Option.bind_eq_bind, Option.bind_eq_some_iff, Option.pure_def,
        Option.some.injEq, List.map_cons, ih]
      constructor
      · intro found
        obtain ⟨output, head, others, tail, rfl⟩ := found
        rw [head, tail, List.map_cons]
      · intro same
        obtain ⟨output, others, rfl, head, tail⟩ := List.map_eq_cons_iff.mp same.symm
        exact ⟨output, head.symm, others, tail.symm, rfl⟩

theorem mapM_eq_map {g : α → β} (each : ∀ input ∈ inputs, f input = some (g input)) :
    inputs.mapM f = some (inputs.map g) := by
  rw [mapM_eq_some, List.map_map]
  exact List.map_congr_left each

theorem length_of_mapM (found : inputs.mapM f = some outputs) :
    outputs.length = inputs.length := by
  simpa using (congrArg List.length (mapM_eq_some.mp found)).symm

theorem exists_mapM (each : ∀ input ∈ inputs, ∃ output, f input = some output) :
    ∃ outputs, inputs.mapM f = some outputs := by
  have results : inputs.map f ∈ Set.range (List.map some) := by
    rw [Set.range_list_map]
    intro result member
    obtain ⟨input, inside, rfl⟩ := List.mem_map.mp member
    obtain ⟨output, found⟩ := each input inside
    exact ⟨output, found.symm⟩
  obtain ⟨outputs, same⟩ := results
  exact ⟨outputs, mapM_eq_some.mpr same.symm⟩

theorem perm_of_mapM {others : List α} {more : List β} (reordered : inputs.Perm others)
    (found : inputs.mapM f = some outputs) (alsoFound : others.mapM f = some more) :
    outputs.Perm more := by
  have results := reordered.map f
  rw [mapM_eq_some.mp found, mapM_eq_some.mp alsoFound] at results
  exact (List.map_perm_map_iff (Option.some_injective _)).mp results

end Attempts

theorem map_set_same {f : α → β} {items : List α} {position : ℕ} {old new : α}
    (found : items[position]? = some old) (same : f new = f old) :
    (items.set position new).map f = items.map f := by
  obtain ⟨inside, rfl⟩ := List.getElem?_eq_some_iff.mp found
  have mapped : position < (items.map f).length := by simpa using inside
  have here : (items.map f)[position] = f items[position] := List.getElem_map f
  rw [List.map_set, same, ← here, List.set_getElem_self]

end SmartContracts.Data
