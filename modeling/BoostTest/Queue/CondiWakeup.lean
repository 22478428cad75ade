import BoostTest.Lib.Wakeup
import BoostTest.Queue.CondiFifo

/-!
# Wakeups of the condition-variable queue

A notification is sent after the lock is released, so parked threads are safe only as long as some
thread still owes one.  For consumers this holds in every interleaving.  For producers it is broken
by `clear`, which makes room and notifies nobody: it holds throughout a run exactly when each
`clear` of the run finds no producer parked, or finds a `dequeue` that has yet to notify.
-/

namespace BoostTest
namespace ZenMessageQueueCondi

open Execution Threads

variable {Thread C α : Type*} {width : Nat}

/-- Consumers wait on `cond_dequeue_` for a message; each `enqueue` owes it a notification. -/
def consumerWatch : Watch (Store width C) (Position α) where
  parked position := position = .dequeueParked
  owes position := ∃ value, position = .enqueueNotifying value
  wanted queue := 0 < queue.queueCurSize

/-- Producers wait on `cond_enqueue_` for room; each `dequeue` owes it a notification. -/
def producerWatch : Watch (Store width C) (Position α) where
  parked position := ∃ value, position = .enqueueParked value
  owes position := ∃ value, position = .dequeueNotifying value
  wanted queue := queue.queueCurSize < queue.queueMaxSize

theorem StartsEnqueue.not_owing {position : Position α} {value : α}
    (starts : StartsEnqueue position value) :
    (¬ ∃ value, position = .enqueueNotifying value) ∧
      ¬ ∃ value, position = .dequeueNotifying value := by
  rcases starts with rfl | rfl <;> exact ⟨nofun, nofun⟩

theorem StartsDequeue.not_owing {position : Position α} (starts : StartsDequeue position) :
    (¬ ∃ value, position = .enqueueNotifying value) ∧
      ¬ ∃ value, position = .dequeueNotifying value := by
  rcases starts with rfl | rfl <;> exact ⟨nofun, nofun⟩

@[simp]
theorem notifyEnqueue_eq_dequeueParked {position : Position α} :
    notifyEnqueue position = .dequeueParked ↔ position = .dequeueParked := by
  cases position <;> simp [notifyEnqueue]

@[simp]
theorem notifyDequeue_ne_dequeueParked {position : Position α} :
    notifyDequeue position ≠ .dequeueParked := by
  cases position <;> simp [notifyDequeue]

@[simp]
theorem notifyEnqueue_eq_enqueueNotifying {position : Position α} {value : α} :
    notifyEnqueue position = .enqueueNotifying value ↔ position = .enqueueNotifying value := by
  cases position <;> simp [notifyEnqueue]

@[simp]
theorem notifyDequeue_eq_enqueueNotifying {position : Position α} {value : α} :
    notifyDequeue position = .enqueueNotifying value ↔ position = .enqueueNotifying value := by
  cases position <;> simp [notifyDequeue]

@[simp]
theorem notifyDequeue_eq_enqueueParked {position : Position α} {value : α} :
    notifyDequeue position = .enqueueParked value ↔ position = .enqueueParked value := by
  cases position <;> simp [notifyDequeue]

@[simp]
theorem notifyEnqueue_ne_enqueueParked {position : Position α} {value : α} :
    notifyEnqueue position ≠ .enqueueParked value := by
  cases position <;> simp [notifyEnqueue]

@[simp]
theorem notifyEnqueue_eq_dequeueNotifying {position : Position α} {value : α} :
    notifyEnqueue position = .dequeueNotifying value ↔ position = .dequeueNotifying value := by
  cases position <;> simp [notifyEnqueue]

@[simp]
theorem notifyDequeue_eq_dequeueNotifying {position : Position α} {value : α} :
    notifyDequeue position = .dequeueNotifying value ↔ position = .dequeueNotifying value := by
  cases position <;> simp [notifyDequeue]

variable [Sequence C α]

/-- No step of any thread loses the wakeup of a consumer. -/
theorem Does.respects_consumers {thread : Thread} {queue : Store width C} {position : Position α}
    {action : Action α} {effect : Effect Thread width C α}
    (does : Does thread queue position action effect) :
    (consumerWatch : Watch (Store width C) (Position α)).Respects (0 < queue.queueCurSize)
      position effect := by
  constructor
  case parks => cases does <;> simp [consumerWatch]
  case owed => cases does <;> simp [consumerWatch]
  case reason =>
    intro available
    cases does with
    | enqueuePush value => exact .inl ⟨value, rfl⟩
    | enqueueNotify => exact .inr ⟨nofun, .inl fun _ => notifyDequeue_ne_dequeueParked⟩
    | dequeuePark starts isEmpty => simp [consumerWatch, isEmpty] at available
    | clear => simp [consumerWatch] at available
    | dequeuePop value after starts notEmpty done =>
        refine .inr ⟨nofun, .inr ⟨?_, starts.not_owing.1⟩⟩
        rw [BitVec.lt_def]
        have := SizeT.eq_zero_iff.not.mp notEmpty
        simpa [Nat.pos_iff_ne_zero] using this
    | enqueuePark value starts | enqueueThrow value starts =>
        exact .inr ⟨nofun, .inr ⟨available, starts.not_owing.1⟩⟩
    | dequeueThrow starts | dequeueCrash starts =>
        exact .inr ⟨nofun, .inr ⟨available, starts.not_owing.1⟩⟩
    | wakeEnqueue _ _ at_ | wakeDequeue _ at_ | enqueueTimeout _ at_ | dequeueTimeout at_
    | dequeueNotify _ at_ | query _ at_ =>
        subst at_
        exact .inr ⟨nofun, .inr ⟨available, nofun⟩⟩

/-- No step but a `clear` loses the wakeup of a producer; a `clear` keeps it where the parked
producers were already covered. -/
theorem Does.respects_producers {thread : Thread} {queue : Store width C} {position : Position α}
    {action : Action α} {effect : Effect Thread width C α}
    (does : Does thread queue position action effect) (valid : queue.Valid) :
    (producerWatch : Watch (Store width C) (Position α)).Respects
      (action = .clear ∨ queue.queueCurSize < queue.queueMaxSize) position effect := by
  constructor
  case parks => cases does <;> simp [producerWatch]
  case owed => cases does <;> simp [producerWatch]
  case reason =>
    intro roomAfter
    cases does with
    | dequeuePop value => exact .inl ⟨value, rfl⟩
    | dequeueNotify => exact .inr ⟨nofun, .inl fun _ => by simp [producerWatch]⟩
    | enqueuePark value starts isFull => simp [producerWatch, isFull] at roomAfter
    | enqueuePush value starts notFull =>
        refine .inr ⟨nofun, .inr ⟨.inr ?_, starts.not_owing.2⟩⟩
        rw [BitVec.lt_def, valid.counted]
        exact valid.room_of_ne notFull
    | clear idle =>
        subst idle
        exact .inr ⟨nofun, .inr ⟨.inl rfl, nofun⟩⟩
    | enqueueThrow value starts => exact .inr ⟨nofun, .inr ⟨.inr roomAfter, starts.not_owing.2⟩⟩
    | dequeuePark starts | dequeueThrow starts | dequeueCrash starts =>
        exact .inr ⟨nofun, .inr ⟨.inr roomAfter, starts.not_owing.2⟩⟩
    | wakeEnqueue _ _ at_ | wakeDequeue _ at_ | enqueueTimeout _ at_ | dequeueTimeout at_
    | enqueueNotify _ at_ | query _ at_ =>
        subst at_
        exact .inr ⟨nofun, .inr ⟨.inr roomAfter, nofun⟩⟩

variable [DecidableEq Thread]

/-- Some thread is parked on `cond_dequeue_` and messages are available only while some `enqueue`
past its critical section has yet to issue `cond_dequeue_.notify_all()`. -/
theorem reachable_consumer_notified (queueMaxSize : SizeT width)
    {system : System Thread width C α}
    (reach : Reachable ZenMessageQueueCondi.step (initial queueMaxSize) system)
    (parked : ∃ thread, system.position thread = .dequeueParked)
    (available : 0 < system.shared.queueCurSize) :
    ∃ thread value, system.position thread = .enqueueNotifying value := by
  have kept : consumerWatch.Kept system := by
    refine reach.invariant (fun available => ?_) fun before choice after kept taken => ?_
    · simp [consumerWatch, initial, Store.construct] at available
    · obtain ⟨effect, enabled, rfl⟩ := Threads.step_eq_some.mp taken
      exact (does_of_act enabled).respects_consumers.kept kept
  exact kept available parked

/-- A consumer parks, a message arrives, and the notification is still to come. -/
theorem reachable_consumer_notified_parked :
    ∃ schedule, ∃ system : System (Fin 2) 32 (List Nat) Nat,
      run step (initial 1) schedule = some system ∧ system.position 0 = .dequeueParked ∧
        system.shared.queueCurSize = 1 ∧
          ∃ thread value, system.position thread = .enqueueNotifying value := by
  let schedule : List (Fin 2 × Action Nat) := [(0, .dequeue false), (1, .enqueue 7 false)]
  have enabled : (run step (initial 1 : System (Fin 2) 32 (List Nat) Nat) schedule).isSome := by
    decide
  have available : (0 : SizeT 32) < 1 := by decide
  exact ⟨schedule, _, (Option.some_get enabled).symm, rfl, rfl,
    reachable_consumer_notified 1 (Reachable.of_isSome schedule enabled) ⟨0, rfl⟩ available⟩

/-- Some thread is parked on `cond_enqueue_` and there is room only while some `dequeue` past its
critical section has yet to issue `cond_enqueue_.notify_all()`. -/
def ProducersNotified (system : System Thread width C α) : Prop :=
  (∃ thread value, system.position thread = .enqueueParked value) →
    system.shared.queueCurSize < system.shared.queueMaxSize →
      ∃ thread value, system.position thread = .dequeueNotifying value

/-- If the choice is a `clear`, then no thread is parked on `cond_enqueue_`, or some `dequeue` past
its critical section has yet to issue `cond_enqueue_.notify_all()`. -/
def ClearCovered (system : System Thread width C α) (choice : Thread × Action α) : Prop :=
  choice.2 = .clear → (∃ thread value, system.position thread = .enqueueParked value) →
    ∃ thread value, system.position thread = .dequeueNotifying value

theorem producersNotified_step {queueMaxSize : SizeT width}
    {before after : System Thread width C α} {choice : Thread × Action α}
    (consistent : Consistent queueMaxSize before) (notified : ProducersNotified before)
    (covered : ClearCovered before choice)
    (taken : ZenMessageQueueCondi.step before choice = some after) :
    ProducersNotified after := by
  obtain ⟨effect, enabled, rfl⟩ := Threads.step_eq_some.mp taken
  have respects := (does_of_act enabled).respects_producers consistent.valid
  have kept : producerWatch.Kept (before.apply choice.1 effect) := by
    refine respects.kept ?_
    rintro (isClear | room) parked
    · exact covered isClear parked
    · exact notified parked room
  exact fun parked room => kept room parked

/-- A `clear` that finds a parked producer and no notification owed leaves it asleep on an empty
queue. -/
theorem clearCovered_of_producersNotified {queueMaxSize : SizeT width}
    (max_pos : 0 < queueMaxSize) {before after : System Thread width C α}
    {choice : Thread × Action α} (consistent : Consistent queueMaxSize before)
    (taken : ZenMessageQueueCondi.step before choice = some after)
    (notified : ProducersNotified after) : ClearCovered before choice := by
  obtain ⟨thread, action⟩ := choice
  rintro (rfl : action = .clear) ⟨sleeper, asleep, parked⟩
  obtain ⟨effect, enabled, rfl⟩ := Threads.step_eq_some.mp taken
  simp only [act] at enabled
  split at enabled <;> cases enabled
  case h_1.refl idle =>
    have sleeper_ne : sleeper ≠ thread := by
      rintro rfl
      rw [idle] at parked
      cases parked
    obtain ⟨notifier, value, owes⟩ := notified
      ⟨sleeper, asleep, by rw [System.apply_position_other _ _ _ sleeper_ne]; exact parked⟩
      (by simpa [consistent.sameMax] using max_pos)
    have notifier_ne : notifier ≠ thread := by
      rintro rfl
      rw [System.apply_position_self] at owes
      cases owes
    rw [System.apply_position_other _ _ _ notifier_ne] at owes
    exact ⟨notifier, value, owes⟩

/-- In a run of a queue with room for at least one message no producer is ever left asleep without
a notification to come exactly when each `clear` of the run is covered. -/
theorem producersNotified_iff_clearCovered {queueMaxSize : SizeT width}
    (max_pos : 0 < queueMaxSize) {schedule : List (Thread × Action α)}
    {final : System Thread width C α}
    (execution : run step (initial queueMaxSize) schedule = some final) :
    Always step (ProducersNotified : System Thread width C α → Prop) (initial queueMaxSize)
        schedule ↔
      Throughout step ClearCovered (initial queueMaxSize : System Thread width C α) schedule := by
  constructor
  · intro notified front choice isPrefix before reached
    obtain ⟨after, execution⟩ := exists_of_prefix isPrefix execution
    obtain ⟨middle, reached', taken⟩ := run_concat_eq_some.mp execution
    obtain rfl : before = middle := Option.some.inj (reached.symm.trans reached')
    exact clearCovered_of_producersNotified max_pos (consistent_of_reachable ⟨front, reached⟩) taken
      (notified _ isPrefix after execution)
  · intro covered
    have both : Always step
        (fun system : System Thread width C α =>
          Consistent queueMaxSize system ∧ ProducersNotified system)
        (initial queueMaxSize) schedule := by
      have starts : ProducersNotified (initial queueMaxSize : System Thread width C α) := by
        rintro ⟨thread, value, parked⟩
        cases parked
      refine always_of_throughout ⟨consistent_initial queueMaxSize, starts⟩ ?_ covered
      rintro before choice after ⟨consistent, notified⟩ covered taken
      exact ⟨consistent.step taken, producersNotified_step consistent notified covered taken⟩
    exact both.mono fun _ => And.right

/-- A producer parked on a queue of size one is left asleep by a `clear`. -/
theorem producersNotified_fails_after_clear :
    ¬ ∀ schedule, Always step
        (ProducersNotified : System (Fin 2) 32 (List Nat) Nat → Prop) (initial 1) schedule := by
  intro always
  let schedule : List (Fin 2 × Action Nat) :=
    [(0, .enqueue 7 false), (1, .enqueue 8 false), (0, .notify), (0, .clear)]
  have enabled : (run step (initial 1 : System (Fin 2) 32 (List Nat) Nat) schedule).isSome := by
    decide
  have room : (0 : SizeT 32) < 1 := by decide
  obtain ⟨thread, value, owes⟩ := always schedule schedule (List.prefix_refl _) _
    (Option.some_get enabled).symm ⟨1, 8, rfl⟩ room
  match thread with
  | 0 => cases owes
  | 1 => cases owes

/-- A `clear` while a producer is parked and a third thread has yet to notify it. -/
theorem producersNotified_iff_clearCovered_handover :
    ∃ schedule, ∃ system : System (Fin 3) 32 (List Nat) Nat,
      run step (initial 1) (schedule ++ [(0, .clear)]) = some system ∧
        system.position 1 = .enqueueParked 8 ∧
          Always step ProducersNotified (initial 1 : System (Fin 3) 32 (List Nat) Nat)
            (schedule ++ [(0, .clear)]) := by
  let schedule : List (Fin 3 × Action Nat) :=
    [(0, .enqueue 7 false), (0, .notify), (1, .enqueue 8 false), (2, .dequeue false)]
  have enabled : (run step (initial 1 : System (Fin 3) 32 (List Nat) Nat)
      (schedule ++ [(0, .clear)])).isSome := by
    decide
  have execution := (Option.some_get enabled).symm
  refine ⟨schedule, _, execution, rfl,
    (producersNotified_iff_clearCovered (by decide) execution).mpr ?_⟩
  exact .cons nofun rfl (.cons nofun rfl (.cons nofun rfl (.cons nofun rfl
    (.cons (fun _ _ => ⟨2, 7, rfl⟩) rfl (.nil _)))))

end ZenMessageQueueCondi
end BoostTest
