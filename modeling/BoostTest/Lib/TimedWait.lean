import BoostTest.Lib.Threads

/-!
# Timed waits of threads

A call is given a duration and may wait several times, each time for that duration at most.  This
file adds the time to a system of threads: an account for each thread with the duration given to its
present call and the time its waits have taken so far.  Apart from that the threads step as before.
-/

namespace BoostTest
namespace Threads

open Function

/-- The waiting time of one call. -/
structure Account where
  /-- The duration given to the call, and by the call to each of its waits. -/
  waitTime : Nat
  /-- What the waits of the call have taken together. -/
  spent : Nat
  deriving DecidableEq, Repr

/-- A system of threads with the account of each thread's present call. -/
structure Timed (Thread Shared Position Event : Type*) where
  system : System Thread Shared Position Event
  account : Thread → Account

/-- What a thread does, with the times involved. -/
structure TimedAction (Action : Type*) where
  action : Action
  /-- The duration given to the call, if the action starts one. -/
  waitTime : Nat := 0
  /-- The time taken by the wait, if the action ends one. -/
  elapsed : Nat := 0
  deriving DecidableEq, Repr

/-- Which actions start a call, and which end a wait. -/
structure Timing (Action : Type*) where
  starts : Action → Bool
  ends : Action → Bool

variable {Thread Shared Position Event Action : Type*} [DecidableEq Thread]

/-- The account in the course of a step: a call that starts has not waited yet. -/
def Timing.opened (timing : Timing Action) (account : Account) (timed : TimedAction Action) :
    Account :=
  if timing.starts timed.action then { waitTime := timed.waitTime, spent := 0 } else account

/-- The account after a step.  A wait takes at most the duration given to it. -/
def Timing.charge (timing : Timing Action) (account : Account) (timed : TimedAction Action) :
    Option Account :=
  let account := timing.opened account timed
  if timing.ends timed.action then
    if timed.elapsed ≤ account.waitTime then
      some { account with spent := account.spent + timed.elapsed }
    else none
  else some account

/-- A step of the system of threads that takes its time. -/
def timedStep (timing : Timing Action)
    (base : System Thread Shared Position Event → Thread × Action →
      Option (System Thread Shared Position Event))
    (timed : Timed Thread Shared Position Event) (choice : Thread × TimedAction Action) :
    Option (Timed Thread Shared Position Event) :=
  (base timed.system (choice.1, choice.2.action)).bind fun system =>
    (timing.charge (timed.account choice.1) choice.2).map fun account =>
      { system, account := update timed.account choice.1 account }

/-- No call has waited longer than it was told to. -/
def Timed.Within (timed : Timed Thread Shared Position Event) : Prop :=
  ∀ thread, (timed.account thread).spent ≤ (timed.account thread).waitTime

variable {timing : Timing Action}
  {base : System Thread Shared Position Event → Thread × Action →
    Option (System Thread Shared Position Event)}
  {timed after : Timed Thread Shared Position Event} {choice : Thread × TimedAction Action}

theorem timedStep_eq_some :
    timedStep timing base timed choice = some after ↔
      ∃ system account, base timed.system (choice.1, choice.2.action) = some system ∧
        timing.charge (timed.account choice.1) choice.2 = some account ∧
          { system, account := update timed.account choice.1 account } = after := by
  simp [timedStep, Option.bind_eq_some_iff, Option.map_eq_some_iff]

/-- Nothing is charged for an action that ends no wait. -/
theorem Timing.charge_of_not_ends {account : Account} {timed : TimedAction Action}
    (ends : timing.ends timed.action = false) :
    timing.charge account timed = some (timing.opened account timed) := by
  simp [Timing.charge, ends]

theorem Timing.charge_of_ends {account charged : Account} {timed : TimedAction Action}
    (ends : timing.ends timed.action = true) :
    timing.charge account timed = some charged ↔
      timed.elapsed ≤ (timing.opened account timed).waitTime ∧
        { timing.opened account timed with
          spent := (timing.opened account timed).spent + timed.elapsed } = charged := by
  simp [Timing.charge, ends, Option.ite_none_right_eq_some]

theorem Timing.opened_of_starts {account : Account} {timed : TimedAction Action}
    (starts : timing.starts timed.action = true) :
    timing.opened account timed = { waitTime := timed.waitTime, spent := 0 } :=
  if_pos starts

theorem Timing.opened_of_not_starts {account : Account} {timed : TimedAction Action}
    (starts : timing.starts timed.action = false) : timing.opened account timed = account := by
  simp [Timing.opened, starts]

/-- A wait that starts with nothing spent stays within the duration. -/
theorem Timing.charge_within {account charged : Account} {timed : TimedAction Action}
    (charges : timing.charge account timed = some charged)
    (within : account.spent ≤ account.waitTime)
    (unspent : timing.ends timed.action = true → (timing.opened account timed).spent = 0) :
    charged.spent ≤ charged.waitTime := by
  cases ends : timing.ends timed.action with
  | true =>
      obtain ⟨short, rfl⟩ := (Timing.charge_of_ends ends).mp charges
      simpa [unspent ends] using short
  | false =>
      rw [Timing.charge_of_not_ends ends] at charges
      obtain rfl := Option.some.inj charges
      cases starts : timing.starts timed.action with
      | true =>
          rw [Timing.opened_of_starts starts]
          exact Nat.zero_le _
      | false =>
          rw [Timing.opened_of_not_starts starts]
          exact within

/-- So a system stays within the durations as long as every wait starts with nothing spent. -/
theorem Timed.Within.after_step (within : timed.Within)
    (taken : timedStep timing base timed choice = some after)
    (unspent : timing.ends choice.2.action = true →
      (timing.opened (timed.account choice.1) choice.2).spent = 0) : after.Within := by
  obtain ⟨system, account, _, charges, rfl⟩ := timedStep_eq_some.mp taken
  intro thread
  by_cases same : thread = choice.1
  · subst same
    simpa using Timing.charge_within charges (within choice.1) unspent
  · simpa [same] using within thread

end Threads
end BoostTest
