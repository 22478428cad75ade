import BoostTest.Lib.CallSequence
import BoostTest.Lib.Threads

/-!
# One thread running alone

What a list of actions of one thread amounts to is again an effect.  If each call of a sequential
component is carried out by some actions of a thread that starts and ends at rest, then a sequence
of calls is carried out by a schedule of that thread alone.
-/

namespace BoostTest
namespace Threads

open Function

variable {Thread Shared Position Event Action : Type*}

/-- Two effects of one thread, one after the other. -/
def Effect.andThen (first second : Effect Shared Position Event) :
    Effect Shared Position Event where
  shared := second.shared
  position := second.position
  events := first.events ++ second.events
  others := second.others ∘ first.others

/-- The effect of a list of actions of one thread. -/
def solo (act : Shared → Position → Action → Option (Effect Shared Position Event)) :
    Shared → Position → List Action → Option (Effect Shared Position Event)
  | shared, position, [] => some { shared, position }
  | shared, position, action :: actions =>
      (act shared position action).bind fun first =>
        (solo act first.shared first.position actions).map first.andThen

theorem solo_cons {act : Shared → Position → Action → Option (Effect Shared Position Event)}
    {shared : Shared} {position : Position} {action : Action} {actions : List Action}
    {first rest : Effect Shared Position Event} (now : act shared position action = some first)
    (later : solo act first.shared first.position actions = some rest) :
    solo act shared position (action :: actions) = some (first.andThen rest) := by
  simp [solo, now, later]

section Run

variable [DecidableEq Thread]

theorem System.apply_andThen (system : System Thread Shared Position Event) (thread : Thread)
    (first second : Effect Shared Position Event) :
    (system.apply thread first).apply thread second =
      system.apply thread (first.andThen second) := by
  simp only [System.apply, Effect.andThen, List.append_assoc, System.mk.injEq, true_and, and_true]
  ext other
  by_cases same : other = thread
  · simp [same]
  · simp [same]

theorem System.apply_self (system : System Thread Shared Position Event) (thread : Thread) :
    system.apply thread { shared := system.shared, position := system.position thread } =
      system := by
  simp [System.apply]

/-- Running the actions one by one applies their effect. -/
theorem run_solo
    (act : Thread → Shared → Position → Action → Option (Effect Shared Position Event))
    (system : System Thread Shared Position Event) (thread : Thread) (actions : List Action) :
    Execution.run (step fun thread shared position => act thread shared (position thread)) system
        (actions.map (Prod.mk thread)) =
      (solo (act thread) system.shared (system.position thread) actions).map
        (system.apply thread) := by
  induction actions generalizing system with
  | nil => simp [solo, System.apply_self]
  | cons action actions induction =>
      rw [List.map_cons, Execution.run_cons, step, solo]
      cases act thread system.shared (system.position thread) action with
      | none => rfl
      | some first =>
          rw [Option.map_some, Option.bind_some, Option.bind_some, induction,
            System.apply_position_self, System.apply_shared, Option.map_map]
          congr 1
          funext second
          exact System.apply_andThen system thread first second

end Run

section Calls

variable {Input Output : Type*}

/-- Some actions of a thread at rest take the shared data from `before` to `after`, record `output`
as the only answer, and leave the threads at rest. -/
def Carries (act : Shared → Position → Action → Option (Effect Shared Position Event))
    (rest : Position) (answers : List Event → List Output) (before : Shared) (output : Output)
    (after : Shared) : Prop :=
  ∃ actions effect, solo act before rest actions = some effect ∧ effect.shared = after ∧
    effect.position = rest ∧ effect.others rest = rest ∧ answers effect.events = [output]

/-- A single action that changes no position carries out a call. -/
theorem Carries.of_act
    {act : Shared → Position → Action → Option (Effect Shared Position Event)} {rest : Position}
    {answers : List Event → List Output} {before after : Shared} {output : Output}
    (action : Action) {events : List Event}
    (acts : act before rest action = some { shared := after, position := rest, events })
    (answered : answers events = [output]) : Carries act rest answers before output after := by
  refine ⟨[action], _, solo_cons acts rfl, rfl, rfl, rfl, ?_⟩
  rw [← answered]
  exact congrArg answers (List.append_nil events)

/-- A sequence of calls, each carried out by a thread running alone, is carried out by a schedule
of that thread. -/
theorem exists_run_of_execute [DecidableEq Thread]
    {act : Thread → Shared → Position → Action → Option (Effect Shared Position Event)}
    {call : Shared → Input → Option (Output × Shared)} {rest : Position}
    {answers : List Event → List Output} {thread : Thread}
    (append : ∀ front back, answers (front ++ back) = answers front ++ answers back)
    (carries : ∀ before input output after, call before input = some (output, after) →
      Carries (act thread) rest answers before output after)
    {system : System Thread Shared Position Event}
    (resting : ∀ other, system.position other = rest) {inputs : List Input}
    {results : List Output} {final : Shared}
    (executed : CallSequence.execute call system.shared inputs = some (results, final)) :
    ∃ actions : List Action, ∃ after : System Thread Shared Position Event,
      Execution.run (step fun thread shared position => act thread shared (position thread)) system
          (actions.map (Prod.mk thread)) = some after ∧
        after.shared = final ∧ (∀ other, after.position other = rest) ∧
          answers after.history = answers system.history ++ results := by
  induction inputs generalizing system results with
  | nil =>
      obtain ⟨rfl, rfl⟩ := Prod.mk.inj (Option.some.inj executed)
      exact ⟨[], system, rfl, rfl, resting, (List.append_nil _).symm⟩
  | cons input inputs induction =>
      obtain ⟨output, next, later, called, executed, rfl⟩ :=
        CallSequence.execute_cons_eq_some.mp executed
      obtain ⟨front, effect, ran, rfl, position, others, answered⟩ :=
        carries system.shared input output next called
      have ranFront := run_solo act system thread front
      rw [resting thread, ran, Option.map_some] at ranFront
      have stillResting : ∀ other, (system.apply thread effect).position other = rest := by
        refine system.apply_position_induction thread effect (fun _ position => position = rest)
          position fun other _ => ?_
        rw [resting other, others]
      obtain ⟨back, after, ranBack, reached, atRest, observed⟩ := induction stillResting executed
      refine ⟨front ++ back, after, ?_, reached, atRest, ?_⟩
      · rw [List.map_append]
        exact Execution.run_append_eq_some.mpr ⟨_, ranFront, ranBack⟩
      · rw [observed, System.apply_history, append, answered, List.append_assoc,
          List.singleton_append]

end Calls
end Threads
end BoostTest
