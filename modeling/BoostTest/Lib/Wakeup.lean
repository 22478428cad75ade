import BoostTest.Lib.Threads

/-!
# Waiting on a condition variable

Threads park until the shared data are as they want them, and whoever brings that about notifies
the parked threads in a later step.  No wakeup is lost as long as every parked thread whose
condition holds is covered by some thread that still owes a notification.  This file reduces that
invariant to a condition on the effect of each single step.
-/

namespace BoostTest
namespace Threads

/-- One condition variable, seen from its users. -/
structure Watch (Shared Position : Type*) where
  /-- The thread is parked on the condition variable. -/
  parked : Position → Prop
  /-- The thread has yet to notify the condition variable. -/
  owes : Position → Prop
  /-- What the parked threads are waiting for. -/
  wanted : Shared → Prop

namespace Watch

variable {Thread Shared Position Event : Type*} (watch : Watch Shared Position)

/-- Every parked thread is covered by a thread that owes a notification. -/
def Covers (system : System Thread Shared Position Event) : Prop :=
  (∃ thread, watch.parked (system.position thread)) →
    ∃ thread, watch.owes (system.position thread)

/-- No wakeup is lost: parked threads are covered whenever their condition holds. -/
def Kept (system : System Thread Shared Position Event) : Prop :=
  watch.wanted system.shared → watch.Covers system

/-- A step that loses no wakeup, provided the parked threads are covered when `covered` holds:
if the condition holds after it, then the stepping thread owes a notification, or nobody is left
parked, or the threads were covered and the stepping thread was not the one to notify them. -/
structure Respects (covered : Prop) (position : Position)
    (effect : Effect Shared Position Event) : Prop where
  parks (other : Position) : watch.parked (effect.others other) → watch.parked other
  owed (other : Position) : watch.owes other → watch.owes (effect.others other)
  reason : watch.wanted effect.shared →
    watch.owes effect.position ∨
      ¬ watch.parked effect.position ∧
        ((∀ other, ¬ watch.parked (effect.others other)) ∨ covered ∧ ¬ watch.owes position)

variable {watch} [DecidableEq Thread]

theorem Respects.kept {covered : Prop} {system : System Thread Shared Position Event}
    {thread : Thread} {effect : Effect Shared Position Event}
    (respects : watch.Respects covered (system.position thread) effect)
    (covers : covered → watch.Covers system) : watch.Kept (system.apply thread effect) := by
  intro wanted ⟨sleeper, asleep⟩
  rcases respects.reason wanted with owes | ⟨awake, alone | ⟨holds, silent⟩⟩
  · exact ⟨thread, by rwa [System.apply_position_self]⟩
  · exact (system.apply_position_induction thread effect
      (fun _ position => ¬ watch.parked position) awake (fun other _ => alone _)
      sleeper asleep).elim
  · have different : sleeper ≠ thread := by
      rintro rfl
      rw [System.apply_position_self] at asleep
      exact awake asleep
    rw [System.apply_position_other system thread effect different] at asleep
    obtain ⟨notifier, owes⟩ := covers holds ⟨sleeper, respects.parks _ asleep⟩
    have notMe : notifier ≠ thread := by
      rintro rfl
      exact silent owes
    refine ⟨notifier, ?_⟩
    rw [System.apply_position_other system thread effect notMe]
    exact respects.owed _ owes

end Watch
end Threads
end BoostTest
