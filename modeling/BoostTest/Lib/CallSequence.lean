import Mathlib.Data.List.Basic
import Mathlib.Tactic.Common

/-!
# Components called by one thread

A component answers a call with an output and a new state; `none` stands for undefined behaviour.
This file gives the outputs of a sequence of calls and the rule that decides on which sequences two
components have the same outputs.
-/

namespace BoostTest
namespace CallSequence

variable {State Other Input Output Index : Type*}

/-- The outputs of a sequence of calls and the state it leads to. -/
def execute (call : State → Input → Option (Output × State)) :
    State → List Input → Option (List Output × State)
  | state, [] => some ([], state)
  | state, input :: inputs =>
      (call state input).bind fun first =>
        (execute call first.2 inputs).map fun rest => (first.1 :: rest.1, rest.2)

/-- The outputs of a sequence of calls. -/
def outputs (call : State → Input → Option (Output × State)) (state : State)
    (inputs : List Input) : Option (List Output) :=
  (execute call state inputs).map Prod.fst

variable {call : State → Input → Option (Output × State)}

@[simp]
theorem execute_nil (state : State) : execute call state [] = some ([], state) := rfl

theorem execute_cons_eq_some {state final : State} {input : Input} {inputs : List Input}
    {results : List Output} :
    execute call state (input :: inputs) = some (results, final) ↔
      ∃ output next rest, call state input = some (output, next) ∧
        execute call next inputs = some (rest, final) ∧ results = output :: rest := by
  simp only [execute, Option.bind_eq_some_iff, Option.map_eq_some_iff, Prod.exists, Prod.mk.injEq]
  constructor
  · rintro ⟨output, next, first, rest, final, later, rfl, rfl⟩
    exact ⟨output, next, rest, first, later, rfl⟩
  · rintro ⟨output, next, rest, first, later, rfl⟩
    exact ⟨output, next, first, rest, final, later, rfl, rfl⟩

theorem execute_append_eq_some {state final : State} {front back : List Input}
    {results : List Output} :
    execute call state (front ++ back) = some (results, final) ↔
      ∃ middle earlier later, execute call state front = some (earlier, middle) ∧
        execute call middle back = some (later, final) ∧ results = earlier ++ later := by
  induction front generalizing state results with
  | nil => simp
  | cons input front induction =>
      simp only [List.cons_append, execute_cons_eq_some, induction]
      constructor
      · rintro ⟨output, next, _, first, ⟨middle, earlier, later, ran, continued, rfl⟩, rfl⟩
        exact ⟨middle, output :: earlier, later, ⟨output, next, earlier, first, ran, rfl⟩,
          continued, rfl⟩
      · rintro ⟨middle, _, later, ⟨output, next, earlier, first, ran, rfl⟩, continued, rfl⟩
        exact ⟨output, next, earlier ++ later, first,
          ⟨middle, earlier, later, ran, continued, rfl⟩, rfl⟩

/-- The calls up to some point of a defined sequence are defined, with the first of its outputs. -/
theorem exists_execute_of_prefix {state final : State} {front inputs : List Input}
    {results : List Output} (isPrefix : front <+: inputs)
    (executed : execute call state inputs = some (results, final)) :
    ∃ earlier middle, execute call state front = some (earlier, middle) ∧ earlier <+: results := by
  obtain ⟨back, rfl⟩ := isPrefix
  obtain ⟨middle, earlier, later, ran, _, rfl⟩ := execute_append_eq_some.mp executed
  exact ⟨earlier, middle, ran, List.prefix_append earlier later⟩

/-- Every call of a defined sequence is answered by one of its outputs. -/
theorem exists_call_of_mem {state final : State} {input : Input} {inputs : List Input}
    (member : input ∈ inputs) {results : List Output}
    (executed : execute call state inputs = some (results, final)) :
    ∃ before output after, call before input = some (output, after) ∧ output ∈ results := by
  obtain ⟨front, back, rfl⟩ := List.append_of_mem member
  obtain ⟨before, earlier, _, _, continued, rfl⟩ := execute_append_eq_some.mp executed
  obtain ⟨output, after, rest, called, _, rfl⟩ := execute_cons_eq_some.mp continued
  exact ⟨before, output, after, called, by simp⟩

theorem outputs_cons {state next : State} {input : Input} {output : Output} (inputs : List Input)
    (first : call state input = some (output, next)) :
    outputs call state (input :: inputs) = (outputs call next inputs).map (output :: ·) := by
  simp only [outputs, execute, first, Option.bind_some, Option.map_map]
  rfl

theorem outputs_eq_some {state : State} {inputs : List Input} {results : List Output} :
    outputs call state inputs = some results ↔
      ∃ final, execute call state inputs = some (results, final) := by
  simp [outputs]

/-- An invariant that makes every call defined makes every sequence of calls defined, and holds
after it. -/
theorem exists_execute (invariant : State → Prop)
    (defined : ∀ state input, invariant state →
      ∃ output next, call state input = some (output, next) ∧ invariant next)
    {state : State} (holds : invariant state) (inputs : List Input) :
    ∃ results final, execute call state inputs = some (results, final) ∧ invariant final := by
  induction inputs generalizing state with
  | nil => exact ⟨[], state, rfl, holds⟩
  | cons input inputs induction =>
      obtain ⟨output, next, first, holdsNext⟩ := defined state input holds
      obtain ⟨rest, final, later, holdsFinal⟩ := induction holdsNext
      have executed := execute_cons_eq_some.mpr ⟨output, next, rest, first, later, rfl⟩
      exact ⟨output :: rest, final, executed, holdsFinal⟩

/-- The simulation rule: a related component gives the same outputs to `allowed` calls. -/
theorem execute_follows {other : Other → Input → Option (Output × Other)}
    {related : State → Other → Prop} {allowed : Input → Prop}
    (follows : ∀ state twin input output after, related state twin → allowed input →
      call state input = some (output, after) → ∃ twinAfter,
        other twin input = some (output, twinAfter) ∧ related after twinAfter)
    {inputs : List Input} (each : ∀ input ∈ inputs, allowed input) {state final : State}
    {twin : Other} (start : related state twin) {results : List Output}
    (executed : execute call state inputs = some (results, final)) :
    ∃ twinFinal, execute other twin inputs = some (results, twinFinal) ∧
      related final twinFinal := by
  induction inputs generalizing state twin results with
  | nil =>
      obtain ⟨rfl, rfl⟩ := Prod.mk.inj (Option.some.inj executed)
      exact ⟨twin, rfl, start⟩
  | cons input inputs induction =>
      obtain ⟨output, next, rest, first, later, rfl⟩ := execute_cons_eq_some.mp executed
      obtain ⟨twinNext, twinFirst, relatedNext⟩ :=
        follows state twin input output next start (each input List.mem_cons_self) first
      have eachLater : ∀ other ∈ inputs, allowed other :=
        fun other member => each other (List.mem_cons_of_mem input member)
      obtain ⟨twinFinal, twinLater, relatedFinal⟩ := induction eachLater relatedNext later
      exact ⟨twinFinal,
        execute_cons_eq_some.mpr ⟨output, twinNext, rest, twinFirst, twinLater, rfl⟩,
        relatedFinal⟩

/-- The agreement rule.  An index computed from the calls alone relates the states of two
components.  Where it can advance, both answer alike and stay related; where it cannot, the answers
differ.  Then the components agree on a sequence exactly where the index survives all of it. -/
theorem outputs_eq_iff {other : Other → Input → Option (Output × Other)}
    (related : Index → State → Other → Prop) {advance : Index → Input → Option Index}
    (alike : ∀ index state twin input next, related index state twin →
      advance index input = some next → ∃ output after twinAfter,
        call state input = some (output, after) ∧ other twin input = some (output, twinAfter) ∧
          related next after twinAfter)
    (differ : ∀ index state twin input, related index state twin → advance index input = none →
      ∀ output after twinAfter, call state input = some (output, after) →
        other twin input ≠ some (output, twinAfter))
    (defined : ∀ index state twin, related index state twin → ∀ inputs,
      (outputs call state inputs).isSome)
    {index : Index} {state : State} {twin : Other} (start : related index state twin)
    (inputs : List Input) :
    outputs call state inputs = outputs other twin inputs ↔
      (inputs.foldlM advance index).isSome := by
  induction inputs generalizing index state twin with
  | nil => simp [outputs]
  | cons input inputs induction =>
      rw [List.foldlM_cons]
      cases advanced : advance index input with
      | some next =>
          obtain ⟨output, after, twinAfter, first, twinFirst, still⟩ :=
            alike index state twin input next start advanced
          rw [outputs_cons inputs first, outputs_cons inputs twinFirst]
          exact (Option.map_injective List.cons_injective).eq_iff.trans (induction still)
      | none =>
          obtain ⟨results, mine⟩ :=
            Option.isSome_iff_exists.mp (defined index state twin start (input :: inputs))
          obtain ⟨final, ran⟩ := outputs_eq_some.mp mine
          obtain ⟨output, after, rest, first, _, rfl⟩ := execute_cons_eq_some.mp ran
          refine iff_of_false (fun same => ?_) (by simp)
          obtain ⟨twinFinal, twinRan⟩ := outputs_eq_some.mp (same.symm.trans mine)
          obtain ⟨twinOutput, twinAfter, twinRest, twinFirst, _, results⟩ :=
            execute_cons_eq_some.mp twinRan
          obtain ⟨rfl, rfl⟩ := List.cons.inj results
          exact differ index state twin input start advanced output after twinAfter first twinFirst

/-- The bisimulation rule: components whose related states always answer alike give the same
outputs to every sequence of calls, and none of the calls is undefined. -/
theorem outputs_of_alike {other : Other → Input → Option (Output × Other)}
    {related : State → Other → Prop}
    (alike : ∀ state twin input, related state twin → ∃ output after twinAfter,
      call state input = some (output, after) ∧ other twin input = some (output, twinAfter) ∧
        related after twinAfter)
    {state : State} {twin : Other} (start : related state twin) (inputs : List Input) :
    ∃ results, outputs call state inputs = some results ∧
      outputs other twin inputs = some results := by
  induction inputs generalizing state twin with
  | nil => exact ⟨[], rfl, rfl⟩
  | cons input inputs induction =>
      obtain ⟨output, after, twinAfter, first, twinFirst, still⟩ := alike state twin input start
      obtain ⟨results, mine, others⟩ := induction still
      refine ⟨output :: results, ?_, ?_⟩
      · rw [outputs_cons inputs first, mine, Option.map_some]
      · rw [outputs_cons inputs twinFirst, others, Option.map_some]

end CallSequence
end BoostTest
