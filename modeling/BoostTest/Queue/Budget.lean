import BoostTest.Lib.TimedWait
import BoostTest.Queue.Condi
import BoostTest.Queue.Sem

/-!
# The time spent in timed waits

Both queues take a relative `wait_time`.  The semaphore queue waits once and stays within it.  The
condition-variable queue hands the whole `wait_time` to every round of its wait loop, so a call
stays within it as long as no round that took time is followed by another one, and a call that goes
round after such a round may exceed it.  The lengths are in ticks of the clock.
-/

namespace BoostTest

open Execution Threads

namespace ZenMessageQueueCondi

variable {Thread C α : Type*} {width : Nat}

/-- `enqueue` and `dequeue` receive `wait_time`, and a `timed_wait` is over when the thread has the
lock again. -/
def timing : Timing (Action α) where
  starts
    | .enqueue .. | .dequeue _ => true
    | _ => false
  ends
    | .resume _ => true
    | _ => false

/-- A queue together with the threads using it and their accounts. -/
abbrev TimedSystem (Thread : Type*) (width : Nat) (C α : Type*) :=
  Timed Thread (Store width C) (Position α) (Event Thread α)

/-- In a `timed_wait`, or out of it without the lock. -/
def Waiting : Position α → Prop
  | .enqueueParked _ | .enqueueWoken .. | .dequeueParked | .dequeueWoken _ => True
  | _ => False

/-- The last `timed_wait` has reported true, and the guard of the wait loop is true again. -/
def GoesRound (queue : Store width C) : Position α → Prop
  | .enqueueWoken _ true => queue.queueCurSize = queue.queueMaxSize
  | .dequeueWoken true => queue.queueCurSize = 0
  | _ => False

/-- In a `timed_wait`. -/
def Parked : Position α → Prop
  | .enqueueParked _ | .dequeueParked => True
  | _ => False

/-- Out of a `timed_wait` that has reported false. -/
def Expired : Position α → Prop
  | .enqueueWoken _ false | .dequeueWoken false => True
  | _ => False

/-- No thread goes round its wait loop after a `timed_wait` that took time. -/
def RoundIsFree (timed : TimedSystem Thread width C α)
    (choice : Thread × TimedAction (Action α)) : Prop :=
  timing.ends choice.2.action = true →
    GoesRound timed.system.shared (timed.system.position choice.1) → choice.2.elapsed = 0

section Steps

variable [Sequence C α]

/-- One step of the queue and of the clock. -/
def timedStep [DecidableEq Thread] : TimedSystem Thread width C α →
    Thread × TimedAction (Action α) → Option (TimedSystem Thread width C α) :=
  Threads.timedStep timing step

/-- A freshly constructed queue that no thread is using. -/
def timedInitial (queueMaxSize : SizeT width) : TimedSystem Thread width C α where
  system := initial queueMaxSize
  account _ := { waitTime := 0, spent := 0 }

variable {thread : Thread} {queue : Store width C} {position : Position α} {action : Action α}
  {effect : Effect Thread width C α}

theorem isFull_of_waiting {value : α} {copyThrows : Bool}
    (waits : Waiting (enqueueRound thread queue value copyThrows).position) :
    queue.queueCurSize = queue.queueMaxSize := by
  unfold enqueueRound at waits
  split at waits
  case isTrue isFull => exact isFull
  case isFalse => split at waits <;> exact waits.elim

theorem isEmpty_of_waiting {copyThrows : Bool}
    (waits : Waiting (dequeueRound thread queue copyThrows).position) :
    queue.queueCurSize = 0 := by
  unfold dequeueRound at waits
  split at waits
  case isTrue isEmpty => exact isEmpty
  case isFalse => split at waits <;> exact waits.elim

/-- A thread that waits after a step has started the call, has been in the wait before, or goes
round. -/
theorem waits_of_act (enabled : act thread queue position action = some effect)
    (waits : Waiting effect.position) :
    timing.starts action = true ∧ timing.ends action = false ∨
      Waiting position ∧ timing.starts action = false ∧
        (timing.ends action = true → GoesRound queue position) := by
  cases action with
  | enqueue => exact .inl ⟨rfl, rfl⟩
  | dequeue => exact .inl ⟨rfl, rfl⟩
  | endWait bret =>
      simp only [act] at enabled
      split at enabled <;> cases enabled <;>
        exact .inr ⟨trivial, rfl, fun ends => (Bool.false_ne_true ends).elim⟩
  | resume copyThrows =>
      simp only [act] at enabled
      split at enabled <;> cases enabled
      case h_1.refl => exact .inr ⟨trivial, rfl, fun _ => isFull_of_waiting waits⟩
      case h_2.refl => exact waits.elim
      case h_3.refl => exact .inr ⟨trivial, rfl, fun _ => isEmpty_of_waiting waits⟩
      case h_4.refl => exact waits.elim
  | _ =>
      simp only [act] at enabled
      split at enabled <;> cases enabled <;> exact waits.elim

/-- Only a thread in a wait can end one. -/
theorem waiting_of_ends (enabled : act thread queue position action = some effect)
    (ends : timing.ends action = true) : Waiting position ∧ timing.starts action = false := by
  cases action with
  | resume copyThrows =>
      refine ⟨?_, rfl⟩
      simp only [act] at enabled
      split at enabled <;> cases enabled <;> trivial
  | _ => cases ends

/-- No step of another thread puts a thread into a wait. -/
theorem waiting_of_others (enabled : act thread queue position action = some effect)
    {other : Position α} (waits : Waiting (effect.others other)) : Waiting other := by
  cases does_of_act enabled with
  | enqueueNotify => cases other <;> trivial
  | dequeueNotify => cases other <;> trivial
  | _ => exact waits

/-- A thread that goes round its wait loop is in a `timed_wait` again. -/
theorem parked_of_goesRound (enabled : act thread queue position action = some effect)
    (ends : timing.ends action = true) (round : GoesRound queue position) :
    Parked effect.position := by
  cases action with
  | resume copyThrows =>
      simp only [act] at enabled
      split at enabled <;> cases enabled
      case h_1.refl value =>
        have isFull : queue.queueCurSize = queue.queueMaxSize := round
        simp [enqueueRound, isFull, Parked]
      case h_2.refl => exact round.elim
      case h_3.refl =>
        have isEmpty : queue.queueCurSize = 0 := round
        simp [dequeueRound, isEmpty, Parked]
      case h_4.refl => exact round.elim
  | _ => cases ends

/-- A `timed_wait` can always expire. -/
theorem exists_expired_of_parked (thread : Thread) (queue : Store width C)
    (parked : Parked position) :
    ∃ effect, act thread queue position (.endWait false) = some effect ∧
      Expired effect.position := by
  cases position with
  | enqueueParked value => exact ⟨_, rfl, trivial⟩
  | dequeueParked => exact ⟨_, rfl, trivial⟩
  | _ => exact parked.elim

/-- After the expiry the thread takes the lock and gives up. -/
theorem exists_effect_of_expired (thread : Thread) (queue : Store width C)
    (expired : Expired position) :
    ∃ effect, act thread queue position (.resume false) = some effect := by
  cases position with
  | enqueueWoken value bret =>
      cases bret with
      | true => exact expired.elim
      | false => exact ⟨_, rfl⟩
  | dequeueWoken bret =>
      cases bret with
      | true => exact expired.elim
      | false => exact ⟨_, rfl⟩
  | _ => exact expired.elim

end Steps

section Runs

variable [Sequence C α] [DecidableEq Thread] {thread : Thread}
  {timed before after : TimedSystem Thread width C α} {choice : Thread × TimedAction (Action α)}

theorem timedStep_eq_some_iff :
    timedStep before choice = some after ↔
      ∃ effect account,
        act choice.1 before.system.shared (before.system.position choice.1) choice.2.action =
            some effect ∧
          timing.charge (before.account choice.1) choice.2 = some account ∧
            { system := before.system.apply choice.1 effect
              account := Function.update before.account choice.1 account } = after := by
  simp only [timedStep, timedStep_eq_some, step, step_eq_some]
  constructor
  · rintro ⟨_, account, ⟨effect, enabled, rfl⟩, charges, rfl⟩
    exact ⟨effect, account, enabled, charges, rfl⟩
  · rintro ⟨effect, account, enabled, charges, rfl⟩
    exact ⟨_, account, ⟨effect, enabled, rfl⟩, charges, rfl⟩

/-- The threads that wait have not spent anything yet. -/
def Unspent (timed : TimedSystem Thread width C α) : Prop :=
  ∀ thread, Waiting (timed.system.position thread) → (timed.account thread).spent = 0

theorem Unspent.step (unspent : Unspent before) (isFree : RoundIsFree before choice)
    (taken : timedStep before choice = some after) : Unspent after := by
  obtain ⟨effect, account, enabled, charges, rfl⟩ := timedStep_eq_some_iff.mp taken
  refine System.apply_position_induction before.system choice.1 effect
    (fun thread position => Waiting position →
      (Function.update before.account choice.1 account thread).spent = 0) ?_ ?_
  · intro waits
    rw [Function.update_self]
    rcases waits_of_act enabled waits with ⟨starts, ends⟩ | ⟨waited, starts, round⟩
    · rw [Timing.charge_of_not_ends ends, Timing.opened_of_starts starts] at charges
      cases charges
      rfl
    · cases ends : timing.ends choice.2.action with
      | true =>
          obtain ⟨_, rfl⟩ := (Timing.charge_of_ends ends).mp charges
          simp [Timing.opened_of_not_starts starts, unspent choice.1 waited,
            isFree ends (round ends)]
      | false =>
          rw [Timing.charge_of_not_ends ends, Timing.opened_of_not_starts starts] at charges
          cases charges
          exact unspent choice.1 waited
  · intro other different waits
    rw [Function.update_of_ne different]
    exact unspent other (waiting_of_others enabled waits)

theorem within_step (within : before.Within) (unspent : Unspent before)
    (taken : timedStep before choice = some after) : after.Within := by
  refine within.after_step taken fun ends => ?_
  obtain ⟨effect, account, enabled, _⟩ := timedStep_eq_some_iff.mp taken
  obtain ⟨waits, starts⟩ := waiting_of_ends enabled ends
  rw [Timing.opened_of_not_starts starts]
  exact unspent choice.1 waits

/-- As long as no round that took time is followed by another one, every call stays within its
`wait_time`. -/
theorem always_within (queueMaxSize : SizeT width)
    {schedule : List (Thread × TimedAction (Action α))}
    (free : Throughout timedStep RoundIsFree
      (timedInitial queueMaxSize : TimedSystem Thread width C α) schedule) :
    Always timedStep Timed.Within (timedInitial queueMaxSize : TimedSystem Thread width C α)
      schedule := by
  have both : Always timedStep (fun timed => timed.Within ∧ Unspent timed)
      (timedInitial queueMaxSize : TimedSystem Thread width C α) schedule := by
    refine always_of_throughout ⟨fun _ => le_rfl, fun _ waits => waits.elim⟩ ?_ free
    rintro before choice after ⟨within, unspent⟩ isFree taken
    exact ⟨within_step within unspent taken, unspent.step isFree taken⟩
  exact both.mono fun _ => And.left

/-- A call that waits again with time spent may exceed its `wait_time`. -/
theorem exists_breach_of_parked (parked : Parked (timed.system.position thread))
    (spent : (timed.account thread).spent ≠ 0) :
    ∃ schedule final, run timedStep timed schedule = some final ∧ ¬ final.Within := by
  let expiry : TimedAction (Action α) := { action := .endWait false }
  let giveUp : TimedAction (Action α) :=
    { action := .resume false, elapsed := (timed.account thread).waitTime }
  obtain ⟨effect, enabled, expired⟩ :=
    exists_expired_of_parked thread timed.system.shared parked
  let woken : TimedSystem Thread width C α :=
    { system := timed.system.apply thread effect, account := timed.account }
  have first : timedStep timed (thread, expiry) = some woken :=
    timedStep_eq_some_iff.mpr ⟨effect, timed.account thread, enabled,
      Timing.charge_of_not_ends rfl, by rw [Function.update_eq_self]⟩
  have expired : Expired (woken.system.position thread) := by
    rwa [System.apply_position_self]
  obtain ⟨last, enabled⟩ := exists_effect_of_expired thread woken.system.shared expired
  let given := timed.account thread
  let final : TimedSystem Thread width C α :=
    { system := woken.system.apply thread last
      account := Function.update timed.account thread
        { given with spent := given.spent + given.waitTime } }
  have second : timedStep woken (thread, giveUp) = some final :=
    timedStep_eq_some_iff.mpr
      ⟨last, _, enabled, (Timing.charge_of_ends rfl).mpr ⟨le_rfl, rfl⟩, rfl⟩
  refine ⟨[(thread, expiry), (thread, giveUp)], final, ?_, fun within => ?_⟩
  · rw [run_cons, first, Option.bind_some, run_cons, second, Option.bind_some, run_nil]
  · have short : given.spent + given.waitTime ≤ given.waitTime := by
      simpa [final] using within thread
    have positive : 0 < given.spent := Nat.pos_of_ne_zero spent
    omega

/-- A round after a round that took time can be continued to a call that exceeds its
`wait_time`. -/
theorem exists_breach (taken : timedStep before choice = some after)
    (costs : ¬ RoundIsFree before choice) :
    ∃ schedule final, run timedStep after schedule = some final ∧ ¬ final.Within := by
  simp only [RoundIsFree, not_forall] at costs
  obtain ⟨ends, round, took⟩ := costs
  obtain ⟨effect, account, enabled, charges, rfl⟩ := timedStep_eq_some_iff.mp taken
  obtain ⟨_, rfl⟩ := (Timing.charge_of_ends ends).mp charges
  have parked : Parked ((before.system.apply choice.1 effect).position choice.1) := by
    rw [System.apply_position_self]
    exact parked_of_goesRound enabled ends round
  exact exists_breach_of_parked parked (by simp [took])

end Runs
end ZenMessageQueueCondi

namespace ZenMessageQueueSem

variable {Thread C α : Type*} {width : Nat}

/-- The only `timed_wait` of a call is the first thing the call does. -/
def timing : Timing (Action α) where
  starts
    | .enqueue .. | .dequeue _ => true
    | _ => false
  ends
    | .enqueue .. | .dequeue _ => true
    | _ => false

/-- A queue together with the threads using it and their accounts. -/
abbrev TimedSystem (Thread : Type*) (width : Nat) (C α : Type*) :=
  Timed Thread (Queue width C) (Position α) (Event Thread α)

variable [Sequence C α] [DecidableEq Thread]

/-- One step of the queue and of the clock. -/
def timedStep : TimedSystem Thread width C α → Thread × TimedAction (Action α) →
    Option (TimedSystem Thread width C α) :=
  Threads.timedStep timing step

/-- A freshly constructed queue that no thread is using. -/
def timedInitial (queueMaxSize : SizeT width) : TimedSystem Thread width C α where
  system := initial queueMaxSize
  account _ := { waitTime := 0, spent := 0 }

/-- A call that waits once stays within its `wait_time`. -/
theorem within_of_reachable {queueMaxSize : SizeT width} {timed : TimedSystem Thread width C α}
    (reach : Reachable timedStep (timedInitial queueMaxSize) timed) : timed.Within := by
  refine reach.invariant (fun _ => le_rfl) fun before choice after within taken => ?_
  refine within.after_step taken fun ends => ?_
  have starts : timing.starts choice.2.action = true := ends
  rw [Timing.opened_of_starts starts]

end ZenMessageQueueSem

/-- In a run in which no call goes round its wait loop after a `timed_wait` that took time, no call
waits longer than its `wait_time` in total.  From any other round a call that does can be reached.
The semaphore queue keeps to `wait_time` in every run. -/
theorem timedWaits_within_of_free_rounds {Thread C α : Type*} {width : Nat} [Sequence C α]
    [DecidableEq Thread] (queueMaxSize : SizeT width) :
    (∀ schedule,
      Throughout ZenMessageQueueCondi.timedStep ZenMessageQueueCondi.RoundIsFree
          (ZenMessageQueueCondi.timedInitial queueMaxSize :
            ZenMessageQueueCondi.TimedSystem Thread width C α) schedule →
        Always ZenMessageQueueCondi.timedStep Timed.Within
          (ZenMessageQueueCondi.timedInitial queueMaxSize :
            ZenMessageQueueCondi.TimedSystem Thread width C α) schedule) ∧
      (∀ (before after : ZenMessageQueueCondi.TimedSystem Thread width C α) choice,
        ZenMessageQueueCondi.timedStep before choice = some after →
          ¬ ZenMessageQueueCondi.RoundIsFree before choice →
            ∃ schedule final,
              run ZenMessageQueueCondi.timedStep after schedule = some final ∧ ¬ final.Within) ∧
      ∀ schedule, Always ZenMessageQueueSem.timedStep Timed.Within
        (ZenMessageQueueSem.timedInitial queueMaxSize :
          ZenMessageQueueSem.TimedSystem Thread width C α) schedule :=
  ⟨fun _ free => ZenMessageQueueCondi.always_within queueMaxSize free,
    fun _ _ _ taken costs => ZenMessageQueueCondi.exists_breach taken costs,
    fun _ front _ _ execution => ZenMessageQueueSem.within_of_reachable ⟨front, execution⟩⟩

/-- A consumer told to wait ten ticks is woken after ten, finds the queue empty and waits ten
more. -/
theorem timedWaits_exceed_after_round :
    ¬ ∀ schedule, Always ZenMessageQueueCondi.timedStep Timed.Within
        (ZenMessageQueueCondi.timedInitial 1 :
          ZenMessageQueueCondi.TimedSystem (Fin 1) 32 (List Nat) Nat) schedule := by
  intro always
  let schedule : List (Fin 1 × TimedAction (ZenMessageQueueCondi.Action Nat)) :=
    [(0, { action := .dequeue false, waitTime := 10 }), (0, { action := .endWait true }),
      (0, { action := .resume false, elapsed := 10 }), (0, { action := .endWait false }),
      (0, { action := .resume false, elapsed := 10 })]
  have enabled : (run ZenMessageQueueCondi.timedStep
      (ZenMessageQueueCondi.timedInitial 1 :
        ZenMessageQueueCondi.TimedSystem (Fin 1) 32 (List Nat) Nat) schedule).isSome := by
    decide
  have within : 20 ≤ 10 :=
    always schedule schedule (List.prefix_refl _) _ (Option.some_get enabled).symm 0
  exact absurd within (by decide)

/-- A consumer that is notified after four of its ten ticks. -/
theorem timedWaits_within_of_free_rounds_handover :
    ∃ schedule, ∃ timed : ZenMessageQueueCondi.TimedSystem (Fin 2) 32 (List Nat) Nat,
      run ZenMessageQueueCondi.timedStep (ZenMessageQueueCondi.timedInitial 1) schedule =
          some timed ∧ schedule.length = 4 ∧
        Always ZenMessageQueueCondi.timedStep Timed.Within
          (ZenMessageQueueCondi.timedInitial 1 :
            ZenMessageQueueCondi.TimedSystem (Fin 2) 32 (List Nat) Nat) schedule := by
  refine ⟨[(0, { action := .dequeue false, waitTime := 10 }),
    (1, { action := .enqueue 7 false, waitTime := 10 }), (1, { action := .notify }),
    (0, { action := .resume false, elapsed := 4 })], _, rfl, rfl, ?_⟩
  refine (timedWaits_within_of_free_rounds 1).1 _ ?_
  -- the last round finds the message
  have found : (1 : SizeT 32) ≠ 0 := by decide
  exact .cons nofun rfl (.cons nofun rfl (.cons nofun rfl
    (.cons (fun _ round => (found round).elim) rfl (.nil _))))

end BoostTest
