import BoostTest.Lib.Execution
import BoostTest.Lib.Tally
import Mathlib.Algebra.BigOperators.Ring.List
import Mathlib.Algebra.GroupWithZero.Nat
import Mathlib.Algebra.Order.BigOperators.Group.Finset

/-!
# Counting the steps of a run by a potential

Each step of a run may earn and must spend.  Where what a step spends is covered by what it earns
and by the fall of a potential, what a whole run spends is covered by what it earns and by the
potential it starts with.  A system whose steps spend and never earn comes to rest.
-/

namespace BoostTest
namespace Execution

variable {State Choice : Type*}

/-- The total cost of the steps of a schedule, up to the first choice that is not enabled. -/
def total (step : State → Choice → Option State) (cost : State → Choice → Nat) :
    State → List Choice → Nat
  | _, [] => 0
  | state, choice :: schedule =>
      match step state choice with
      | some next => cost state choice + total step cost next schedule
      | none => 0

variable {step : State → Choice → Option State}

theorem total_cons {state next : State} {choice : Choice} (taken : step state choice = some next)
    (cost : State → Choice → Nat) (schedule : List Choice) :
    total step cost state (choice :: schedule) =
      cost state choice + total step cost next schedule := by
  simp [total, taken]

/-- A cost that depends on the choices alone. -/
theorem total_eq_sum (cost : Choice → Nat) {schedule : List Choice} {initial final : State}
    (execution : run step initial schedule = some final) :
    total step (fun _ choice => cost choice) initial schedule = (schedule.map cost).sum := by
  induction schedule generalizing initial with
  | nil => rfl
  | cons choice schedule induction =>
      obtain ⟨next, first, rest⟩ := Option.bind_eq_some_iff.mp execution
      rw [total_cons first, induction rest, List.map_cons, List.sum_cons]

/-- Where every choice costs one, a run costs its length. -/
theorem total_one {schedule : List Choice} {initial final : State}
    (execution : run step initial schedule = some final) :
    total step (fun _ _ => 1) initial schedule = schedule.length := by
  rw [total_eq_sum (fun _ => 1) execution]
  simp

/-- Choices that cost one each where they pass a test. -/
theorem sum_toNat_eq_countP (test : Choice → Bool) (schedule : List Choice) :
    (schedule.map fun choice => (test choice).toNat).sum = schedule.countP test := by
  induction schedule with
  | nil => rfl
  | cons choice schedule induction =>
      rw [List.map_cons, List.sum_cons, induction, List.countP_cons]
      cases test choice <;> simp [Nat.add_comm]

/-- The potential rule. -/
theorem total_spends_le {potential : State → Nat} {earns spends : State → Choice → Nat}
    (invariant : State → Prop)
    (covered : ∀ before choice after, invariant before → step before choice = some after →
      invariant after ∧
        spends before choice + potential after ≤ earns before choice + potential before)
    {schedule : List Choice} {initial final : State} (starts : invariant initial)
    (execution : run step initial schedule = some final) :
    total step spends initial schedule + potential final ≤
      total step earns initial schedule + potential initial := by
  induction schedule generalizing initial with
  | nil =>
      obtain rfl : initial = final := by simpa using execution
      exact le_rfl
  | cons choice schedule induction =>
      obtain ⟨next, first, rest⟩ := Option.bind_eq_some_iff.mp execution
      obtain ⟨holds, paid⟩ := covered initial choice next starts first
      have later := induction holds rest
      rw [total_cons first, total_cons first]
      omega

/-- The potential rule where a test on the choices tells the steps that spend. -/
theorem countP_spends_le {potential : State → Nat} {earns : Choice → Nat} {spends : Choice → Bool}
    (covered : ∀ before choice after, step before choice = some after →
      (spends choice).toNat + potential after ≤ earns choice + potential before)
    {schedule : List Choice} {initial final : State}
    (execution : run step initial schedule = some final) :
    schedule.countP spends + potential final ≤
      (schedule.map earns).sum + potential initial := by
  have bound := total_spends_le (fun _ => True)
    (fun before choice after _ taken => ⟨trivial, covered before choice after taken⟩) trivial
    execution
  rwa [total_eq_sum (fun choice => (spends choice).toNat) execution,
    total_eq_sum earns execution, sum_toNat_eq_countP] at bound

/-- A system in which some allowed step that lowers the potential is enabled in every state that
is not at rest can be brought to rest by such steps. -/
theorem exists_run_to_rest {potential : State → Nat} {invariant atRest : State → Prop}
    {allowed : State → Choice → Prop}
    (goes : ∀ state, invariant state → ¬ atRest state → ∃ choice next, allowed state choice ∧
      step state choice = some next ∧ invariant next ∧ potential next < potential state)
    {initial : State} (starts : invariant initial) :
    ∃ schedule final, run step initial schedule = some final ∧
      Throughout step allowed initial schedule ∧ atRest final ∧ invariant final ∧
        schedule.length ≤ potential initial := by
  induction bound : potential initial using Nat.strong_induction_on generalizing initial with
  | _ _ induction =>
      subst bound
      by_cases resting : atRest initial
      · exact ⟨[], initial, rfl, .nil initial, resting, starts, Nat.zero_le _⟩
      · obtain ⟨choice, next, isAllowed, first, holds, lower⟩ := goes initial starts resting
        obtain ⟨schedule, final, rest, throughout, atEnd, kept, short⟩ :=
          induction _ lower holds rfl
        refine ⟨choice :: schedule, final, by rw [run_cons, first]; exact rest,
          throughout.cons isAllowed first, atEnd, kept, ?_⟩
        rw [List.length_cons]
        omega

end Execution

open Function

variable {Thread Position : Type*} [Fintype Thread]

/-- The weights of the other threads grow by one each at most. -/
theorem tally_lt_of_others {weight : Position → Nat} {before after : Thread → Position}
    (thread : Thread) (own : weight (after thread) ≤ weight (before thread))
    (others : ∀ other, weight (after other) ≤ weight (before other) + 1) :
    tally weight after < tally weight before + Fintype.card Thread := by
  have each : ∑ other, weight (after other) < ∑ other, (weight (before other) + 1) :=
    Finset.sum_lt_sum (fun other _ => others other)
      ⟨thread, Finset.mem_univ thread, Nat.lt_succ_of_le own⟩
  rw [Finset.sum_add_distrib] at each
  simpa [tally] using each

end BoostTest
