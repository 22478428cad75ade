import BoostTest.Lib.Execution
import BoostTest.Lib.Tally

/-!
# Threads over shared data

A concurrent program is given by what one atomic step of one thread does: from the shared data, the
positions of the threads and a choice of the scheduler it computes new shared data, the new position
of the stepping thread, what becomes of the other positions, and the events to record.  `step`
assembles these local effects into an executable transition system, so that every interleaving of
the threads is a schedule of `Thread × Action` pairs.
-/

namespace BoostTest
namespace Threads

open Function

/-- What one atomic step of one thread does. -/
structure Effect (Shared Position Event : Type*) where
  shared : Shared
  /-- New position of the stepping thread. -/
  position : Position
  /-- Events to append to the history. -/
  events : List Event := []
  /-- What the step does to the position of every other thread. -/
  others : Position → Position := id

/-- Shared data, one position a thread, and the history of recorded events. -/
structure System (Thread Shared Position Event : Type*) where
  shared : Shared
  position : Thread → Position
  history : List Event

variable {Thread Shared Position Event Action : Type*} [DecidableEq Thread]

namespace System

/-- Carry out an effect of one thread. -/
def apply (system : System Thread Shared Position Event) (thread : Thread)
    (effect : Effect Shared Position Event) : System Thread Shared Position Event where
  shared := effect.shared
  position := update (fun other => effect.others (system.position other)) thread effect.position
  history := system.history ++ effect.events

variable (system : System Thread Shared Position Event) (thread : Thread)
  (effect : Effect Shared Position Event)

@[simp]
theorem apply_shared : (system.apply thread effect).shared = effect.shared := rfl

@[simp]
theorem apply_history : (system.apply thread effect).history = system.history ++ effect.events :=
  rfl

@[simp]
theorem apply_position_self : (system.apply thread effect).position thread = effect.position := by
  simp [apply]

theorem apply_position_other {other : Thread} (different : other ≠ thread) :
    (system.apply thread effect).position other = effect.others (system.position other) := by
  simp [apply, different]

/-- A step that leaves the other threads alone is an update of the position map. -/
theorem apply_position_of_id (alone : effect.others = id) :
    (system.apply thread effect).position = update system.position thread effect.position := by
  simp [apply, alone]

/-- A step that leaves the other threads alone changes a count by the stepping thread only. -/
theorem count_apply [Fintype Thread] (alone : effect.others = id) (test : Position → Bool) :
    count test (system.apply thread effect).position + (test (system.position thread)).toNat =
      count test system.position + (test effect.position).toNat := by
  rw [apply_position_of_id system thread effect alone]
  exact count_update test system.position thread effect.position

/-- A fact about one position survives a step as soon as the stepping thread and the other
threads keep it. -/
theorem apply_position_induction (property : Thread → Position → Prop)
    (own : property thread effect.position)
    (rest : ∀ other, other ≠ thread → property other (effect.others (system.position other)))
    (other : Thread) : property other ((system.apply thread effect).position other) := by
  by_cases same : other = thread
  · subst same
    rw [apply_position_self]
    exact own
  · rw [apply_position_other system thread effect same]
    exact rest other same

end System

/-- One scheduling choice: a thread and what it does. -/
def step (act : Thread → Shared → (Thread → Position) → Action →
      Option (Effect Shared Position Event))
    (system : System Thread Shared Position Event) (choice : Thread × Action) :
    Option (System Thread Shared Position Event) :=
  (act choice.1 system.shared system.position choice.2).map (system.apply choice.1)

theorem step_eq_some {act : Thread → Shared → (Thread → Position) → Action →
      Option (Effect Shared Position Event)}
    {before after : System Thread Shared Position Event} {choice : Thread × Action} :
    step act before choice = some after ↔
      ∃ effect, act choice.1 before.shared before.position choice.2 = some effect ∧
        before.apply choice.1 effect = after :=
  Option.map_eq_some_iff

/-- A run only adds to the history. -/
theorem history_prefix_of_run {act : Thread → Shared → (Thread → Position) → Action →
      Option (Effect Shared Position Event)}
    {schedule : List (Thread × Action)} {before after : System Thread Shared Position Event}
    (execution : Execution.run (step act) before schedule = some after) :
    before.history <+: after.history := by
  induction schedule generalizing before with
  | nil =>
      obtain rfl : before = after := by simpa using execution
      exact List.prefix_refl _
  | cons choice schedule induction =>
      obtain ⟨next, first, rest⟩ := Option.bind_eq_some_iff.mp execution
      obtain ⟨effect, _, rfl⟩ := step_eq_some.mp first
      exact (List.prefix_append before.history effect.events).trans (induction rest)

end Threads
end BoostTest
