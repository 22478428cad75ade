import BoostTest.Queue.CondiFifo

/-!
# Failed calls of the condition-variable queue

A call that gives up or is left by an exception has only parked and woken.  Between two moments at
which a thread is in no call, a thread whose calls have moved no message could as well not have
been there: the other threads take the same steps, with the same results, and leave the same queue.
-/

namespace BoostTest
namespace ZenMessageQueueCondi

open Execution Threads

variable {Thread C α : Type*} {width : Nat}

/-- `twin` is `state` without what `thread` has done since it was in no call. -/
structure Unseen [DecidableEq Thread] (thread : Thread) (state twin : System Thread width C α) :
    Prop where
  shared : twin.shared = state.shared
  /-- The thread owes no notification. -/
  quiet : unreported (state.position thread) = [] ∧ undelivered (state.position thread) = []
  resting : twin.position thread = .idle
  others : ∀ other, other ≠ thread → twin.position other = state.position other
  histories : ∀ other, other ≠ thread →
    Event.ofThread other twin.history = Event.ofThread other state.history

variable [Sequence C α]

/-- A step of a thread that owes no notification and moves nothing only changes its own position. -/
theorem Does.unseen {thread : Thread} {queue : Store width C} {position : Position α}
    {action : Action α} {effect : Effect Thread width C α}
    (does : Does thread queue position action effect)
    (quiet : unreported position = [] ∧ undelivered position = [])
    (nothing : Event.ops effect.events = []) :
    effect.shared = queue ∧ effect.others = id ∧ unreported effect.position = [] ∧
      undelivered effect.position = [] := by
  cases does with
  | enqueuePush | dequeuePop | clear => simp [Event.ops] at nothing
  | enqueueNotify value owes | dequeueNotify value owes =>
      subst owes
      simp [unreported, undelivered] at quiet
  | _ => exact ⟨rfl, rfl, rfl, rfl⟩

/-- A notification does not move a thread that is in no call. -/
theorem Does.others_idle {thread : Thread} {queue : Store width C} {position : Position α}
    {action : Action α} {effect : Effect Thread width C α}
    (does : Does thread queue position action effect) : effect.others .idle = .idle := by
  cases does <;> rfl

variable [DecidableEq Thread]

/-- The choice is not one of `thread`, or it moves no message. -/
def MovesNothing (thread : Thread) (system : System Thread width C α)
    (choice : Thread × Action α) : Prop :=
  choice.1 = thread → ∀ after, step system choice = some after →
    Event.ops (Event.ofThread thread after.history) =
      Event.ops (Event.ofThread thread system.history)

/-- A thread that has moved nothing at the end of a run has moved nothing in any of its steps. -/
theorem throughout_movesNothing {thread : Thread} {schedule : List (Thread × Action α)}
    {before after : System Thread width C α} (execution : run step before schedule = some after)
    (nothing : Event.ops (Event.ofThread thread after.history) =
      Event.ops (Event.ofThread thread before.history)) :
    Throughout step (MovesNothing thread) before schedule := by
  have grows {state next : System Thread width C α} (isPrefix : state.history <+: next.history) :
      Event.ops (Event.ofThread thread state.history) <+:
        Event.ops (Event.ofThread thread next.history) :=
    (isPrefix.filter _).filterMap _
  intro front choice isPrefix state reached _ next taken
  obtain ⟨back, rfl⟩ := isPrefix
  obtain ⟨middle, first, last⟩ := run_append_eq_some.mp execution
  obtain rfl : next = middle := by
    have reachedNext := run_concat_eq_some.mpr ⟨state, reached, taken⟩
    exact Option.some.inj (reachedNext.symm.trans first)
  have earlier := grows (history_prefix_of_run reached)
  have now : Event.ops (Event.ofThread thread state.history) <+:
      Event.ops (Event.ofThread thread next.history) := by
    obtain ⟨effect, _, rfl⟩ := Threads.step_eq_some.mp taken
    exact grows (List.prefix_append _ _)
  have later := grows (history_prefix_of_run last)
  rw [nothing] at later
  have same := earlier.eq_of_length_le (now.trans later).length_le
  rw [← same]
  exact (List.IsPrefix.eq_of_length_le (same ▸ now) later.length_le).symm

namespace Unseen

variable {thread : Thread} {before after twin : System Thread width C α}
  {choice : Thread × Action α}

/-- A step of the thread itself, with which it moves nothing. -/
theorem stutter (unseen : Unseen thread before twin) (own : decide (choice.1 = thread) = true)
    (nothing : MovesNothing thread before choice)
    (taken : ZenMessageQueueCondi.step before choice = some after) : Unseen thread after twin := by
  have own := of_decide_eq_true own
  have same := nothing own after taken
  obtain ⟨effect, enabled, rfl⟩ := Threads.step_eq_some.mp taken
  obtain ⟨rest, action⟩ := choice
  obtain rfl : rest = thread := own
  have does := does_of_act enabled
  obtain ⟨shared, quiet, resting, others, histories⟩ := unseen
  have silent : Event.ops effect.events = [] := by
    rw [System.apply_history, Event.ofThread_append_self does.own, Event.ops_append] at same
    exact List.append_right_eq_self.mp same
  obtain ⟨sameShared, alone, stillQuiet⟩ := does.unseen quiet silent
  constructor
  case shared => rw [System.apply_shared, sameShared, shared]
  case quiet => rwa [System.apply_position_self]
  case resting => exact resting
  case others =>
    intro other different
    rw [System.apply_position_other _ _ _ different, alone]
    exact others other different
  case histories =>
    intro other different
    rw [System.apply_history, Event.ofThread_append_of_ne different does.own]
    exact histories other different

/-- A step of another thread is the same step without the thread. -/
theorem follow (unseen : Unseen thread before twin)
    (other : decide (choice.1 = thread) = false)
    (taken : ZenMessageQueueCondi.step before choice = some after) :
    ∃ next, ZenMessageQueueCondi.step twin choice = some next ∧ Unseen thread after next := by
  have different : choice.1 ≠ thread := of_decide_eq_false other
  obtain ⟨effect, enabled, rfl⟩ := Threads.step_eq_some.mp taken
  have does := does_of_act enabled
  obtain ⟨shared, quiet, resting, others, histories⟩ := unseen
  have unsettled := does.unsettled_others (before.position thread)
  have asleep := does.others_idle
  rw [← shared, ← others choice.1 different] at enabled
  refine ⟨_, Threads.step_eq_some.mpr ⟨effect, enabled, rfl⟩, ?_⟩
  constructor
  case shared => rfl
  case quiet =>
    rw [System.apply_position_other _ _ _ different.symm, unsettled.1, unsettled.2]
    exact quiet
  case resting => rw [System.apply_position_other _ _ _ different.symm, resting, asleep]
  case others =>
    intro other notThread
    by_cases same : other = choice.1
    · rw [same, System.apply_position_self, System.apply_position_self]
    · rw [System.apply_position_other _ _ _ same, System.apply_position_other _ _ _ same,
        others other notThread]
  case histories =>
    intro other notThread
    simp only [System.apply_history, Event.ofThread, List.filter_append]
    exact congrArg (· ++ _) (histories other notThread)

end Unseen

/-- A thread that between two moments at which it is in no call has moved nothing, its calls having
all given up, been left by an exception or only asked, can be taken out of the run: the remaining
steps are a run that leaves the same queue, the same positions and the same history of every other
thread. -/
theorem failed_calls_leave_no_trace {thread : Thread} {schedule : List (Thread × Action α)}
    {before after : System Thread width C α} (execution : run step before schedule = some after)
    (starts : before.position thread = .idle) (ends : after.position thread = .idle)
    (nothing : Event.ops (Event.ofThread thread after.history) =
      Event.ops (Event.ofThread thread before.history)) :
    ∃ twin, run step before (schedule.filter fun choice => !decide (choice.1 = thread)) =
        some twin ∧
      twin.shared = after.shared ∧ twin.position = after.position ∧
        ∀ other, other ≠ thread →
          Event.ofThread other twin.history = Event.ofThread other after.history := by
  have start : Unseen thread before before :=
    ⟨rfl, by rw [starts]; exact ⟨rfl, rfl⟩, starts, fun _ _ => rfl, fun _ _ => rfl⟩
  have quiet := throughout_movesNothing execution nothing
  obtain ⟨twin, alone, unseen⟩ := run_erases (fun _ _ _ _ => Unseen.follow)
    (fun _ _ _ _ => Unseen.stutter) start quiet execution
  refine ⟨twin, alone, unseen.shared, funext fun other => ?_, unseen.histories⟩
  by_cases same : other = thread
  · rw [same, unseen.resting, ends]
  · exact unseen.others other same

/-- A producer gives up on a full queue, is notified and throws on a second attempt, all while
another thread goes on. -/
theorem failed_calls_leave_no_trace_twice :
    ∃ twin : System (Fin 2) 32 (List Nat) Nat,
      run step (initial 1)
          [(0, .enqueue 7 false), (0, .notify), (0, .dequeue false), (0, .notify)] = some twin ∧
        twin.shared = Store.construct 1 [] := by
  let schedule : List (Fin 2 × Action Nat) :=
    [(0, .enqueue 7 false), (1, .enqueue 8 false), (0, .notify), (1, .endWait false),
      (1, .resume false), (1, .enqueue 9 false), (0, .dequeue false), (0, .notify),
      (1, .resume true)]
  have enabled : (run step (initial 1 : System (Fin 2) 32 (List Nat) Nat) schedule).isSome := by
    decide
  obtain ⟨twin, alone, shared, _⟩ :=
    @failed_calls_leave_no_trace _ _ _ _ _ _ 1 _ _ _ (Option.some_get enabled).symm rfl rfl rfl
  exact ⟨twin, alone, shared⟩

end ZenMessageQueueCondi
end BoostTest
