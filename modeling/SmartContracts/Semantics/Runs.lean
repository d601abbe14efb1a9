import Mathlib

namespace SmartContracts.Semantics

/-! # Runs of a deterministic machine

A machine is a total step function on states and inputs; a run feeds it a list
of inputs.  The rules below are the inductions every run-level result rests on:
for a property that each step keeps, for one that some steps break, for one of
the state together with the inputs that led to it, and for a machine that keeps
more than another.  `Along` restricts a run to steps that meet a condition on the
state before the step and its input.
-/

variable {σ ι : Type*} {step : σ → ι → σ} {meets : σ → ι → Prop}

def run (step : σ → ι → σ) (start : σ) (inputs : List ι) : σ :=
  inputs.foldl step start

@[simp] theorem run_nil (start : σ) : run step start [] = start := rfl

@[simp] theorem run_cons (start : σ) (input : ι) (rest : List ι) :
    run step start (input :: rest) = run step (step start input) rest := rfl

theorem run_append (start : σ) (first second : List ι) :
    run step start (first ++ second) = run step (run step start first) second :=
  List.foldl_append

@[simp] theorem run_snoc (start : σ) (inputs : List ι) (last : ι) :
    run step start (inputs ++ [last]) = step (run step start inputs) last := by
  rw [run_append, run_cons, run_nil]

theorem run_inputs {κ : Type*} (read : κ → ι) (start : σ) (raws : List κ) :
    run (fun state raw => step state (read raw)) start raws = run step start (raws.map read) :=
  List.foldl_map.symm

/-- Every step of the run meets the condition, judged on the state before it. -/
def Along (step : σ → ι → σ) (meets : σ → ι → Prop) : σ → List ι → Prop
  | _, [] => True
  | start, input :: rest => meets start input ∧ Along step meets (step start input) rest

instance decidableAlong [∀ state input, Decidable (meets state input)] :
    ∀ start inputs, Decidable (Along step meets start inputs)
  | _, [] => instDecidableTrue
  | start, input :: rest =>
      @instDecidableAnd _ _ _ (decidableAlong (step start input) rest)

theorem along_append {start : σ} {first second : List ι} :
    Along step meets start (first ++ second) ↔
      Along step meets start first ∧ Along step meets (run step start first) second := by
  induction first generalizing start with
  | nil => simp [Along]
  | cons input rest ih => simp [Along, ih, and_assoc]

theorem along_of_mem {inputs : List ι} (each : ∀ input ∈ inputs, ∀ state, meets state input)
    (start : σ) : Along step meets start inputs := by
  induction inputs generalizing start with
  | nil => trivial
  | cons input rest ih =>
      exact ⟨each input List.mem_cons_self start,
        ih (fun later member => each later (List.mem_cons_of_mem _ member)) _⟩

/-- Inputs that each keep an invariant meet what the invariant ensures. -/
theorem along_of_invariant {holds : σ → Prop} {given : ι → Prop} {start : σ} {inputs : List ι}
    (initially : holds start)
    (kept : ∀ state input, holds state → given input →
      meets state input ∧ holds (step state input))
    (each : ∀ input ∈ inputs, given input) : Along step meets start inputs := by
  induction inputs generalizing start with
  | nil => trivial
  | cons input rest ih =>
      obtain ⟨first, next⟩ := kept start input initially (each input List.mem_cons_self)
      exact ⟨first, ih next fun later member => each later (List.mem_cons_of_mem _ member)⟩

theorem along_mono {admits : σ → ι → Prop} {start : σ} {inputs : List ι}
    (weaker : ∀ state input, meets state input → admits state input)
    (met : Along step meets start inputs) : Along step admits start inputs := by
  induction inputs generalizing start with
  | nil => trivial
  | cons input rest ih => exact ⟨weaker start input met.1, ih met.2⟩

/-- A machine that keeps more than another one still runs like it. -/
theorem run_map {τ : Type*} {viewed : τ → ι → τ} {view : σ → τ}
    (agrees : ∀ state input, view (step state input) = viewed (view state) input) (start : σ)
    (inputs : List ι) : view (run step start inputs) = run viewed (view start) inputs := by
  induction inputs generalizing start with
  | nil => rfl
  | cons input rest ih => rw [run_cons, run_cons, ih, agrees]

/-- A machine that may stop runs along with one that cannot, through the steps that
it is able to follow. -/
theorem run_followed {τ : Type*} {follow : τ → ι → Option τ} {agrees : τ → σ → Prop}
    (each : ∀ low high input, agrees low high → meets high input →
      ∃ next, follow low input = some next ∧ agrees next (step high input))
    {low : τ} {high : σ} {inputs : List ι} (initially : agrees low high)
    (admitted : Along step meets high inputs) :
    ∃ final, inputs.foldlM follow low = some final ∧ agrees final (run step high inputs) := by
  induction inputs generalizing low high with
  | nil => exact ⟨low, rfl, initially⟩
  | cons input rest ih =>
      obtain ⟨next, followed, agree⟩ := each low high input initially admitted.1
      obtain ⟨final, ran, last⟩ := ih agree admitted.2
      refine ⟨final, ?_, last⟩
      rw [List.foldlM_cons, followed]
      exact ran

theorem run_preserves {holds : σ → Prop} {start : σ} {inputs : List ι}
    (initially : holds start)
    (kept : ∀ state input, holds state → meets state input → holds (step state input))
    (admitted : Along step meets start inputs) : holds (run step start inputs) := by
  induction inputs generalizing start with
  | nil => exact initially
  | cons input rest ih => exact ih (kept start input initially admitted.1) admitted.2

theorem run_invariant {holds : σ → Prop} {start : σ} (initially : holds start)
    (kept : ∀ state input, holds state → holds (step state input)) (inputs : List ι) :
    holds (run step start inputs) :=
  @run_preserves σ ι step (fun _ _ => True) holds start inputs initially
    (fun state input before _ => kept state input before)
    (along_of_mem (fun _ _ _ => trivial) start)

/-- Where a step that meets the condition, and only such a step, keeps the
property, it holds at the end of the runs whose steps all meet the condition. -/
theorem run_iff {invariant holds : σ → Prop} {admits : σ → ι → Prop} {start : σ}
    {inputs : List ι} (initially : invariant start)
    (kept : ∀ state input, invariant state → admits state input → invariant (step state input))
    (exact : ∀ state input, invariant state → admits state input →
      (holds (step state input) ↔ holds state ∧ meets state input))
    (admitted : Along step admits start inputs) :
    holds (run step start inputs) ↔ holds start ∧ Along step meets start inputs := by
  induction inputs generalizing start with
  | nil => simp [Along]
  | cons input rest ih =>
      obtain ⟨first, later⟩ := admitted
      rw [run_cons, ih (kept start input initially first) later,
        exact start input initially first, and_assoc, Along]

/-- Induction on the past of a run: a property of the inputs so far and the
state they lead to that every admitted step extends holds of the whole run. -/
theorem run_history {holds : List ι → σ → Prop} {start : σ} {inputs : List ι}
    (initially : holds [] start)
    (extended : ∀ past input, holds past (run step start past) →
      meets (run step start past) input →
      holds (past ++ [input]) (step (run step start past) input))
    (admitted : Along step meets start inputs) : holds inputs (run step start inputs) := by
  induction inputs using List.reverseRecOn with
  | nil => exact initially
  | append_singleton past last ih =>
      obtain ⟨before, lastMeets, _⟩ := along_append.mp admitted
      rw [run_snoc]
      exact extended past last (ih before) lastMeets

/-! ## Counting steps -/

section Counting

variable [meetsDecidable : ∀ state input, Decidable (meets state input)]

variable (step meets) in
/-- How many steps of the run meet the condition, judged on the state before each. -/
def countAlong : σ → List ι → ℕ
  | _, [] => 0
  | start, input :: rest =>
      (if meets start input then 1 else 0) + countAlong (step start input) rest

theorem countAlong_eq_zero {start : σ} {inputs : List ι}
    (never : Along step (fun state input => ¬ meets state input) start inputs) :
    countAlong step meets start inputs = 0 := by
  induction inputs generalizing start with
  | nil => rfl
  | cons input rest ih => rw [countAlong, if_neg never.1, ih never.2]

/-- Where every step changes a potential by the difference of two counts, so does
the run. -/
theorem countAlong_potential {admits : σ → ι → Prop}
    [admitsDecidable : ∀ state input, Decidable (admits state input)] {potential : σ → ℕ}
    (each : ∀ state input, (if meets state input then 1 else 0) + potential state =
      (if admits state input then 1 else 0) + potential (step state input))
    (start : σ) (inputs : List ι) :
    countAlong step meets start inputs + potential start =
      countAlong step admits start inputs + potential (run step start inputs) := by
  induction inputs generalizing start with
  | nil => rfl
  | cons input rest ih =>
      have first := each start input
      have later := ih (step start input)
      rw [run_cons, countAlong, countAlong]
      omega

end Counting

/-! ## Leaving steps out -/

section Served

variable [meetsDecidable : ∀ state input, Decidable (meets state input)]

variable (step meets) in
/-- The inputs that meet the condition where they stand, when the others are left
out. -/
def served : σ → List ι → List ι
  | _, [] => []
  | start, input :: rest =>
      if meets start input then input :: served (step start input) rest else served start rest

theorem served_sublist (start : σ) (inputs : List ι) :
    (served step meets start inputs).Sublist inputs := by
  induction inputs generalizing start with
  | nil => exact List.Sublist.refl []
  | cons input rest ih =>
      rw [served]
      split
      · exact (ih (step start input)).cons_cons input
      · exact (ih start).cons input

theorem served_of_along {start : σ} {inputs : List ι} (admitted : Along step meets start inputs) :
    served step meets start inputs = inputs := by
  induction inputs generalizing start with
  | nil => rfl
  | cons input rest ih => rw [served, if_pos admitted.1, ih admitted.2]

/-- A machine that follows the steps that meet the condition, and stays where it is
at the others, ends where the run without the others ends. -/
theorem run_served {τ : Type*} {follow : τ → ι → τ} {agrees : τ → σ → Prop}
    (follows : ∀ low high input, agrees low high → meets high input →
      agrees (follow low input) (step high input))
    (stays : ∀ low high input, agrees low high → ¬ meets high input →
      agrees (follow low input) high)
    {low : τ} {high : σ} (initially : agrees low high) (inputs : List ι) :
    agrees (run follow low inputs) (run step high (served step meets high inputs)) := by
  induction inputs generalizing low high with
  | nil => exact initially
  | cons input rest ih =>
      rw [served, run_cons]
      split
      · rename_i meets
        exact ih (follows low high input initially meets)
      · rename_i misses
        exact ih (stays low high input initially misses)

end Served

/-! ## Interleavings -/

/-- Every member acts once, in whatever order, among inputs that come from
elsewhere.  What holds of the members who have acted, and is extended by each of
them and left alone by the rest, holds of all members in the end. -/
theorem run_interleaved {α : Type*} {members : List α} {send : α → ι} {ours : ι → Prop}
    [oursDecidable : DecidablePred ours] {holds : List α → σ → Prop} {outside : ι → Prop}
    {start : σ} {inputs : List ι} (distinct : members.Nodup)
    (acts : ∀ acted member state, member ∈ members → member ∉ acted → holds acted state →
      holds (member :: acted) (step state (send member)))
    (ignores : ∀ acted input state, outside input → holds acted state →
      holds acted (step state input))
    (initially : holds [] start)
    (sent : (inputs.filter ours).Perm (members.map send))
    (others : ∀ input ∈ inputs, ¬ ours input → outside input) :
    ∃ acted : List α, acted.Perm members ∧ holds acted (run step start inputs) := by
  suffices general : ∀ (inputs : List ι) (acted waiting : List α) (start : σ),
      (acted ++ waiting).Perm members → (inputs.filter ours).Perm (waiting.map send) →
      (∀ input ∈ inputs, ¬ ours input → outside input) → holds acted start →
      ∃ acted : List α, acted.Perm members ∧ holds acted (run step start inputs) from
    general inputs [] members start (List.Perm.refl _) sent others initially
  clear sent others initially start inputs
  intro inputs
  induction inputs with
  | nil =>
      intro acted waiting start everyone sent _ before
      have none : waiting = [] := List.map_eq_nil_iff.mp sent.nil_eq.symm
      rw [none, List.append_nil] at everyone
      exact ⟨acted, everyone, before⟩
  | cons input rest ih =>
      intro acted waiting start everyone sent others before
      have later : ∀ other ∈ rest, ¬ ours other → outside other :=
        fun other member => others other (List.mem_cons_of_mem _ member)
      by_cases own : ours input
      · rw [List.filter_cons_of_pos (by simpa using own)] at sent
        obtain ⟨member, waits, rfl⟩ := List.mem_map.mp (sent.subset List.mem_cons_self)
        obtain ⟨before', after', rfl⟩ := List.append_of_mem waits
        have moved : (member :: acted ++ (before' ++ after')).Perm members := by
          refine List.Perm.trans ?_ everyone
          rw [← List.append_assoc, ← List.append_assoc]
          exact List.perm_middle.symm
        have remaining : (rest.filter ours).Perm ((before' ++ after').map send) := by
          rw [List.map_append, List.map_cons] at sent
          rw [List.map_append]
          exact (sent.trans List.perm_middle).cons_inv
        have unacted : member ∉ acted := by
          have once := moved.nodup_iff.mpr distinct
          exact fun already => (List.nodup_cons.mp once).1 (List.mem_append_left _ already)
        have included : member ∈ members := moved.subset List.mem_cons_self
        exact ih (member :: acted) (before' ++ after') _ moved remaining later
          (acts acted member start included unacted before)
      · rw [List.filter_cons_of_neg (by simpa using own)] at sent
        exact ih acted waiting _ everyone sent later
          (ignores acted input start (others input List.mem_cons_self own) before)

/-- A part of the state on which some inputs act, by what is seen of it alone, goes
its way without the other inputs. -/
theorem run_view {τ : Type*} {view : σ → τ} {concerns : ι → Bool}
    (acts : ∀ first second input, concerns input = true → view first = view second →
      view (step first input) = view (step second input))
    (ignores : ∀ state input, concerns input = false → view (step state input) = view state)
    (start : σ) (inputs : List ι) :
    view (run step start inputs) = view (run step start (inputs.filter concerns)) := by
  suffices general : ∀ first second, view first = view second →
      view (run step first inputs) = view (run step second (inputs.filter concerns)) from
    general start start rfl
  induction inputs with
  | nil => exact fun _ _ same => same
  | cons input rest ih =>
      intro first second same
      cases own : concerns input with
      | true =>
          rw [List.filter_cons_of_pos own, run_cons, run_cons]
          exact ih _ _ (acts first second input own same)
      | false =>
          rw [List.filter_cons_of_neg (by simp [own]), run_cons]
          exact ih _ _ ((ignores first input own).trans same)

end SmartContracts.Semantics
