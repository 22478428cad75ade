import BoostTest.Lib.CallSequence
import BoostTest.Lib.Execution
import Mathlib.Data.List.ReduceOption

/-!
# Linearizing a concurrent object

A run of a concurrent object is linearized against a sequential one by labels, at most one call for
each step of the run.  Whether a step is where a call takes effect may only be settled later, when
the call gives up or goes on, so the labels are found backwards: from the answers the threads are
still owed after a step, the rule below asks for the label of the step and the answers owed before
it.
-/

namespace BoostTest
namespace Linearization

open CallSequence Execution

/-- A call taking effect, with the answer its thread is to be given. -/
structure Point (Thread Input Output : Type*) where
  thread : Thread
  input : Input
  output : Output
  deriving DecidableEq, Repr

/-- How the states of a concurrent object are read. -/
structure Object (State Thread Value Output : Type*) where
  /-- The value of the sequential object. -/
  value : State → Value
  /-- The answers a thread has been given, in order. -/
  given : State → Thread → List Output
  /-- Answers a thread may still be owed, for a call that has taken effect. -/
  owed : State → Thread → List Output → Prop

variable {State Choice Thread Value Input Output : Type*}

/-- The calls of the labels, in the order in which they take effect. -/
def inputs (labels : List (Option (Point Thread Input Output))) : List Input :=
  labels.reduceOption.map Point.input

/-- The answers of the labels, in the order in which their calls take effect. -/
def outputs (labels : List (Option (Point Thread Input Output))) : List Output :=
  labels.reduceOption.map Point.output

/-- The answers of the labels of one thread. -/
def ownOutputs [DecidableEq Thread] (thread : Thread)
    (labels : List (Option (Point Thread Input Output))) : List Output :=
  (labels.reduceOption.filter fun point => point.thread = thread).map Point.output

@[simp]
theorem ownOutputs_nil [DecidableEq Thread] (thread : Thread) :
    ownOutputs thread ([] : List (Option (Point Thread Input Output))) = [] := rfl

theorem ownOutputs_cons [DecidableEq Thread] (thread : Thread)
    (label : Option (Point Thread Input Output))
    (labels : List (Option (Point Thread Input Output))) :
    ownOutputs thread (label :: labels) =
      ownOutputs thread [label] ++ ownOutputs thread labels := by
  cases label with
  | none => simp [ownOutputs, List.reduceOption_cons_of_none]
  | some point => by_cases own : point.thread = thread <;> simp [ownOutputs, own]

/-- What a step with the given label does to the sequential object. -/
inductive TakesEffect (call : Value → Input → Option (Output × Value)) :
    Value → Option (Point Thread Input Output) → Value → Prop
  | silent (value : Value) : TakesEffect call value none value
  | point {before after : Value} (point : Point Thread Input Output)
      (called : call before point.input = some (point.output, after)) :
      TakesEffect call before (some point) after

/-- The labels linearize the run of the schedule: after each part of the schedule the labelled
calls, executed one after the other, give the labelled answers and the value of the object; and the
answers of a thread's labels are those it has been given and then those it is owed. -/
structure Linearizes [DecidableEq Thread] (object : Object State Thread Value Output)
    (call : Value → Input → Option (Output × Value)) (step : State → Choice → Option State)
    (initial : State) (schedule : List Choice)
    (labels : List (Option (Point Thread Input Output))) : Prop where
  length_eq : labels.length = schedule.length
  legal : ∀ front middle, front <+: schedule → run step initial front = some middle →
    execute call (object.value initial) (inputs (labels.take front.length)) =
      some (outputs (labels.take front.length), object.value middle)
  ordered : ∀ front middle, front <+: schedule → run step initial front = some middle →
    ∀ thread, ∃ still, object.owed middle thread still ∧
      ownOutputs thread (labels.take front.length) = object.given middle thread ++ still

/-- A label before the labels of the calls that follow. -/
theorem execute_cons_label {call : Value → Input → Option (Output × Value)}
    {before middle final : Value} {label : Option (Point Thread Input Output)}
    {labels : List (Option (Point Thread Input Output))}
    (effect : TakesEffect call before label middle)
    (executed : execute call middle (inputs labels) = some (outputs labels, final)) :
    execute call before (inputs (label :: labels)) = some (outputs (label :: labels), final) := by
  cases effect with
  | silent => simpa [inputs, outputs, List.reduceOption_cons_of_none] using executed
  | point point called =>
      simp only [inputs, outputs, List.reduceOption_cons_of_some, List.map_cons]
      exact execute_cons_eq_some.mpr ⟨_, _, _, called, executed, rfl⟩

/-- What a step asks of its label, given the answers owed after it. -/
def Explains [DecidableEq Thread] (object : Object State Thread Value Output)
    (call : Value → Input → Option (Output × Value)) (before after : State) : Prop :=
  ∀ owed : Thread → List Output, (∀ thread, object.owed after thread (owed thread)) →
    ∃ (label : Option (Point Thread Input Output)) (owedBefore : Thread → List Output),
      TakesEffect call (object.value before) label (object.value after) ∧
      ∀ thread, object.owed before thread (owedBefore thread) ∧
        object.given before thread ++ owedBefore thread ++ ownOutputs thread [label] =
          object.given after thread ++ owed thread

variable [DecidableEq Thread] {object : Object State Thread Value Output}
  {call : Value → Input → Option (Output × Value)} {step : State → Choice → Option State}

/-- The labels of a run that starts anywhere account for the answers given and owed. -/
theorem exists_labels (invariant : State → Prop)
    (settles : ∀ state thread, ∃ owed, object.owed state thread owed)
    (preserved : ∀ before choice after, invariant before → step before choice = some after →
      invariant after ∧ Explains object call before after)
    {schedule : List Choice} {initial final : State} (starts : invariant initial)
    (execution : run step initial schedule = some final) :
    ∃ (labels : List (Option (Point Thread Input Output))) (owed : Thread → List Output),
      labels.length = schedule.length ∧ (∀ thread, object.owed initial thread (owed thread)) ∧
        ∀ front middle, front <+: schedule → run step initial front = some middle →
          execute call (object.value initial) (inputs (labels.take front.length)) =
              some (outputs (labels.take front.length), object.value middle) ∧
            ∀ thread, ∃ still, object.owed middle thread still ∧
              object.given initial thread ++ owed thread ++
                  ownOutputs thread (labels.take front.length) =
                object.given middle thread ++ still := by
  induction schedule generalizing initial with
  | nil =>
      choose owed fits using settles initial
      refine ⟨[], owed, rfl, fits, fun front middle isPrefix reached => ?_⟩
      obtain rfl := List.prefix_nil.mp isPrefix
      obtain rfl : initial = middle := by simpa using reached
      exact ⟨rfl, fun thread => ⟨owed thread, fits thread, by simp⟩⟩
  | cons choice schedule induction =>
      obtain ⟨next, first, rest⟩ := Option.bind_eq_some_iff.mp execution
      obtain ⟨holds, explains⟩ := preserved initial choice next starts first
      obtain ⟨labels, owed, sameLength, fits, follows⟩ := induction holds rest
      obtain ⟨label, owedBefore, effect, accounts⟩ := explains owed fits
      refine ⟨label :: labels, owedBefore, by simp [sameLength],
        fun thread => (accounts thread).1, fun front middle isPrefix reached => ?_⟩
      cases front with
      | nil =>
          obtain rfl : initial = middle := by simpa using reached
          exact ⟨rfl, fun thread => ⟨owedBefore thread, (accounts thread).1, by simp⟩⟩
      | cons earlier front =>
          obtain ⟨rfl, restPrefix⟩ := List.cons_prefix_cons.mp isPrefix
          rw [run_cons, first] at reached
          obtain ⟨executed, ordered⟩ := follows front middle restPrefix reached
          refine ⟨execute_cons_label effect executed, fun thread => ?_⟩
          obtain ⟨still, stillOwed, settled⟩ := ordered thread
          refine ⟨still, stillOwed, ?_⟩
          calc
            object.given initial thread ++ owedBefore thread ++
                  ownOutputs thread (label :: labels.take front.length) =
                object.given initial thread ++ owedBefore thread ++ ownOutputs thread [label] ++
                  ownOutputs thread (labels.take front.length) := by
                    rw [ownOutputs_cons, ← List.append_assoc]
            _ = object.given next thread ++ owed thread ++
                  ownOutputs thread (labels.take front.length) := by rw [(accounts thread).2]
            _ = object.given middle thread ++ still := settled

/-- The linearization rule: a run that starts with nothing given or owed has a linearization if
each of its steps can be labelled. -/
theorem exists_linearizes (invariant : State → Prop)
    (settles : ∀ state thread, ∃ owed, object.owed state thread owed)
    (preserved : ∀ before choice after, invariant before → step before choice = some after →
      invariant after ∧ Explains object call before after)
    {schedule : List Choice} {initial final : State} (starts : invariant initial)
    (fresh : ∀ thread, object.given initial thread = [] ∧
      ∀ owed, object.owed initial thread owed → owed = [])
    (execution : run step initial schedule = some final) :
    ∃ labels : List (Option (Point Thread Input Output)),
      Linearizes object call step initial schedule labels := by
  obtain ⟨labels, owed, sameLength, fits, follows⟩ :=
    exists_labels invariant settles preserved starts execution
  refine ⟨labels, sameLength,
    fun front middle isPrefix reached => (follows front middle isPrefix reached).1,
    fun front middle isPrefix reached thread => ?_⟩
  obtain ⟨still, stillOwed, settled⟩ := (follows front middle isPrefix reached).2 thread
  rw [(fresh thread).1, (fresh thread).2 (owed thread) (fits thread)] at settled
  exact ⟨still, stillOwed, settled⟩

end Linearization
end BoostTest
