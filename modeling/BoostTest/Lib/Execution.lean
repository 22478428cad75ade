import Mathlib.Data.List.Induction
import Mathlib.Tactic.Common

/-!
# Executions of an executable transition system

A system is a partial function `step`: it takes a state and one scheduling choice, and is `none`
where the choice is not enabled.  A schedule is a list of choices.  This file gives the runs of
such a system, the invariant rule for all runs and for the runs whose steps meet a condition, and
the simulation rule between two systems driven by the same schedule.
-/

namespace BoostTest
namespace Execution

variable {State Choice : Type*}

/-- Execute a schedule, failing at the first choice that is not enabled. -/
def run (step : State → Choice → Option State) : State → List Choice → Option State
  | state, [] => some state
  | state, choice :: schedule => (step state choice).bind fun next => run step next schedule

/-- A state some schedule leads to. -/
def Reachable (step : State → Choice → Option State) (initial state : State) : Prop :=
  ∃ schedule, run step initial schedule = some state

/-- Every state visited while executing the schedule satisfies `good`. -/
def Always (step : State → Choice → Option State) (good : State → Prop) (initial : State)
    (schedule : List Choice) : Prop :=
  ∀ front, front <+: schedule → ∀ state, run step initial front = some state → good state

/-- Every choice of the schedule meets `allowed` in the state in which it is taken. -/
def Throughout (step : State → Choice → Option State) (allowed : State → Choice → Prop)
    (initial : State) (schedule : List Choice) : Prop :=
  ∀ front choice, front ++ [choice] <+: schedule →
    ∀ state, run step initial front = some state → allowed state choice

variable {step : State → Choice → Option State}

@[simp]
theorem run_nil (state : State) : run step state [] = some state := rfl

theorem run_cons (state : State) (choice : Choice) (schedule : List Choice) :
    run step state (choice :: schedule) =
      (step state choice).bind fun next => run step next schedule := rfl

theorem run_append (state : State) (front back : List Choice) :
    run step state (front ++ back) =
      (run step state front).bind fun middle => run step middle back := by
  induction front generalizing state with
  | nil => rfl
  | cons choice front induction =>
      rw [List.cons_append, run_cons, run_cons]
      cases step state choice with
      | none => rfl
      | some next => exact induction next

theorem run_append_eq_some {state final : State} {front back : List Choice} :
    run step state (front ++ back) = some final ↔
      ∃ middle, run step state front = some middle ∧ run step middle back = some final := by
  rw [run_append, Option.bind_eq_some_iff]

theorem run_concat_eq_some {state final : State} {front : List Choice} {choice : Choice} :
    run step state (front ++ [choice]) = some final ↔
      ∃ middle, run step state front = some middle ∧ step middle choice = some final := by
  rw [run_append_eq_some]
  simp [run_cons]

/-- A prefix of an enabled schedule is enabled. -/
theorem exists_of_prefix {state final : State} {front schedule : List Choice}
    (isPrefix : front <+: schedule) (execution : run step state schedule = some final) :
    ∃ middle, run step state front = some middle := by
  obtain ⟨back, rfl⟩ := isPrefix
  obtain ⟨middle, reached, _⟩ := run_append_eq_some.mp execution
  exact ⟨middle, reached⟩

/-- The invariant rule for one schedule whose choices all meet a condition. -/
theorem invariant_of_throughout (invariant : State → Prop) {allowed : State → Choice → Prop}
    {initial : State} (starts : invariant initial)
    (preserved : ∀ before choice after, invariant before → allowed before choice →
      step before choice = some after → invariant after)
    {schedule : List Choice} (meets : Throughout step allowed initial schedule)
    {final : State} (execution : run step initial schedule = some final) :
    invariant final := by
  induction schedule using List.reverseRecOn generalizing final with
  | nil =>
      obtain rfl : initial = final := by simpa using execution
      exact starts
  | append_singleton front choice induction =>
      obtain ⟨middle, reached, last⟩ := run_concat_eq_some.mp execution
      have meets_front : Throughout step allowed initial front := by
        intro earlier other isPrefix
        exact meets earlier other (isPrefix.trans (List.prefix_append front [choice]))
      exact preserved middle choice final (induction meets_front reached)
        (meets front choice (List.prefix_refl _) middle reached) last

/-- A prefix of a schedule meets every condition the schedule meets. -/
theorem Throughout.of_prefix {allowed : State → Choice → Prop} {initial : State}
    {front schedule : List Choice} (meets : Throughout step allowed initial schedule)
    (isPrefix : front <+: schedule) : Throughout step allowed initial front :=
  fun earlier choice earlierPrefix => meets earlier choice (earlierPrefix.trans isPrefix)

/-- What a guarded step preserves holds in every state a guarded run visits. -/
theorem always_of_throughout {invariant : State → Prop} {allowed : State → Choice → Prop}
    {initial : State} (starts : invariant initial)
    (preserved : ∀ before choice after, invariant before → allowed before choice →
      step before choice = some after → invariant after)
    {schedule : List Choice} (meets : Throughout step allowed initial schedule) :
    Always step invariant initial schedule :=
  fun _ isPrefix _ execution =>
    invariant_of_throughout invariant starts preserved (meets.of_prefix isPrefix) execution

theorem Always.mono {weak strong : State → Prop} {initial : State} {schedule : List Choice}
    (implies : ∀ state, strong state → weak state)
    (always : Always step strong initial schedule) : Always step weak initial schedule :=
  fun front isPrefix state execution => implies state (always front isPrefix state execution)

/-- A condition on the choices alone holds throughout as soon as it holds of each choice. -/
theorem throughout_of_forall {allowed : Choice → Prop} {initial : State}
    {schedule : List Choice} (each : ∀ choice ∈ schedule, allowed choice) :
    Throughout step (fun _ choice => allowed choice) initial schedule := by
  intro front choice isPrefix state _
  exact each choice (isPrefix.subset (by simp))

/-- A condition on the steps of a concrete schedule is checked step by step. -/
theorem Throughout.nil {allowed : State → Choice → Prop} (initial : State) :
    Throughout step allowed initial [] := by
  intro front choice isPrefix
  simp at isPrefix

theorem Throughout.cons {allowed : State → Choice → Prop} {initial next : State} {choice : Choice}
    {schedule : List Choice} (now : allowed initial choice)
    (taken : step initial choice = some next) (later : Throughout step allowed next schedule) :
    Throughout step allowed initial (choice :: schedule) := by
  intro front other isPrefix state execution
  cases front with
  | nil =>
      obtain ⟨rfl, _⟩ := List.cons_prefix_cons.mp isPrefix
      obtain rfl : initial = state := by simpa using execution
      exact now
  | cons first front =>
      obtain ⟨rfl, rest⟩ := List.cons_prefix_cons.mp isPrefix
      rw [run_cons, taken] at execution
      exact later front other rest state execution

/-- The invariant rule for all runs. -/
theorem Reachable.invariant {invariant : State → Prop} {initial state : State}
    (reach : Reachable step initial state) (starts : invariant initial)
    (preserved : ∀ before choice after, invariant before →
      step before choice = some after → invariant after) : invariant state := by
  obtain ⟨schedule, execution⟩ := reach
  have unconditional : Throughout step (fun _ _ => True) initial schedule :=
    fun _ _ _ _ _ => trivial
  exact invariant_of_throughout invariant starts
    (fun before choice after holds _ => preserved before choice after holds)
    unconditional execution

theorem Reachable.refl (initial : State) : Reachable step initial initial := ⟨[], rfl⟩

/-- The state an enabled schedule leads to is reachable. -/
theorem Reachable.of_isSome {initial : State} (schedule : List Choice)
    (enabled : (run step initial schedule).isSome) :
    Reachable step initial ((run step initial schedule).get enabled) :=
  ⟨schedule, (Option.some_get enabled).symm⟩

/-- The simulation rule: a related system can follow every step whose choice is `allowed`. -/
theorem run_simulates {Other : Type*} {other : Other → Choice → Option Other}
    {related : State → Other → Prop} {allowed : Choice → Prop}
    (follows : ∀ before choice after twin, related before twin → allowed choice →
      step before choice = some after → ∃ next, other twin choice = some next ∧ related after next)
    {schedule : List Choice} (each : ∀ choice ∈ schedule, allowed choice)
    {initial final : State} {twin : Other} (start : related initial twin)
    (execution : run step initial schedule = some final) :
    ∃ twinFinal, run other twin schedule = some twinFinal ∧ related final twinFinal := by
  induction schedule generalizing initial twin with
  | nil =>
      obtain rfl : initial = final := by simpa using execution
      exact ⟨twin, rfl, start⟩
  | cons choice schedule induction =>
      obtain ⟨next, first, rest⟩ := Option.bind_eq_some_iff.mp execution
      obtain ⟨twinNext, twinFirst, relatedNext⟩ :=
        follows initial choice next twin start (each choice List.mem_cons_self) first
      have eachLater : ∀ later ∈ schedule, allowed later :=
        fun later member => each later (List.mem_cons_of_mem choice member)
      obtain ⟨twinFinal, twinRest, relatedFinal⟩ := induction eachLater relatedNext rest
      exact ⟨twinFinal, by rw [run_cons, twinFirst]; exact twinRest, relatedFinal⟩

/-- The erasing rule: a related system can follow the steps that are not `hidden` and need not move
at the others, as long as these meet a condition. -/
theorem run_erases {Other : Type*} {other : Other → Choice → Option Other}
    {related : State → Other → Prop} {hidden : Choice → Bool} {allowed : State → Choice → Prop}
    (follows : ∀ before choice after twin, related before twin → hidden choice = false →
      step before choice = some after → ∃ next, other twin choice = some next ∧ related after next)
    (stutters : ∀ before choice after twin, related before twin → hidden choice = true →
      allowed before choice → step before choice = some after → related after twin)
    {schedule : List Choice} {initial final : State} {twin : Other} (start : related initial twin)
    (meets : Throughout step allowed initial schedule)
    (execution : run step initial schedule = some final) :
    ∃ twinFinal, run other twin (schedule.filter fun choice => !hidden choice) = some twinFinal ∧
      related final twinFinal := by
  induction schedule generalizing initial twin with
  | nil =>
      obtain rfl : initial = final := by simpa using execution
      exact ⟨twin, rfl, start⟩
  | cons choice schedule induction =>
      obtain ⟨next, first, rest⟩ := Option.bind_eq_some_iff.mp execution
      have now : allowed initial choice :=
        meets [] choice ⟨schedule, rfl⟩ initial rfl
      have later : Throughout step allowed next schedule := by
        intro front last isPrefix state reached
        refine meets (choice :: front) last (List.cons_prefix_cons.mpr ⟨rfl, isPrefix⟩) state ?_
        rw [run_cons, first]
        exact reached
      cases isHidden : hidden choice with
      | true =>
          have still := stutters initial choice next twin start isHidden now first
          rw [List.filter_cons_of_neg (by simp [isHidden])]
          exact induction still later rest
      | false =>
          obtain ⟨twinNext, twinFirst, relatedNext⟩ :=
            follows initial choice next twin start isHidden first
          obtain ⟨twinFinal, twinRest, relatedFinal⟩ := induction relatedNext later rest
          rw [List.filter_cons_of_pos (by simp [isHidden])]
          exact ⟨twinFinal, by rw [run_cons, twinFirst]; exact twinRest, relatedFinal⟩

/-- What can be observed of the steps of a schedule, up to the first that is not enabled. -/
def trace {Observation : Type*} (step : State → Choice → Option State)
    (observe : State → Choice → List Observation) : State → List Choice → List Observation
  | _, [] => []
  | state, choice :: schedule =>
      match step state choice with
      | some next => observe state choice ++ trace step observe next schedule
      | none => []

/-- The invariant rule for a state together with what was observed on the way to it. -/
theorem trace_invariant {Observation : Type*} {observe : State → Choice → List Observation}
    {invariant : State → List Observation → Prop}
    (preserved : ∀ before choice after log, invariant before log →
      step before choice = some after → invariant after (log ++ observe before choice))
    {schedule : List Choice} {initial final : State} {log : List Observation}
    (starts : invariant initial log) (execution : run step initial schedule = some final) :
    invariant final (log ++ trace step observe initial schedule) := by
  induction schedule generalizing initial log with
  | nil =>
      obtain rfl : initial = final := by simpa using execution
      simpa [trace] using starts
  | cons choice schedule induction =>
      obtain ⟨next, first, rest⟩ := Option.bind_eq_some_iff.mp execution
      have later := induction (preserved initial choice next log starts first) rest
      simpa [trace, first] using later

end Execution
end BoostTest
