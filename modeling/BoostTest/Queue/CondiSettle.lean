import BoostTest.Lib.Potential
import BoostTest.Queue.CondiWakeup

/-!
# The condition-variable queue settles

A `notify_all` wakes every parked thread and most of them may have to park again.  This neither goes
on forever nor ends too early: what the threads do on their own, between two calls, timeouts or
spurious wakeups, is bounded by their number, and where it ends no thread waits for something it
could have.
-/

namespace BoostTest
namespace ZenMessageQueueCondi

open Execution Threads

variable {Thread C α : Type*} {width : Nat}

/-- A step that a thread takes on its own, within a call. -/
def isInternal : Action α → Bool
  | .resume _ => true
  | .notify => true
  | _ => false

/-- The start of an `enqueue` or a `dequeue`. -/
def isCall : Action α → Bool
  | .enqueue _ _ => true
  | .dequeue _ => true
  | _ => false

/-- A `timed_wait` that ends spuriously or by the timeout. -/
def isEndWait : Action α → Bool
  | .endWait _ => true
  | _ => false

/-- A step of a thread on its own is none of the others. -/
theorem earns_nothing_of_isInternal {action : Action α} (internal : isInternal action = true) :
    isCall action = false ∧ isEndWait action = false ∧ action ≠ .clear := by
  cases action with
  | resume | notify => exact ⟨rfl, rfl, nofun⟩
  | _ => cases internal

/-- How many steps of its own a thread can still take or cause, one of `threads` threads: a woken
thread may still park, and a notification may wake all the other threads. -/
def effort (threads : Nat) : Position α → Nat
  | .idle => 0
  | .enqueueParked _ => threads
  | .enqueueWoken _ _ => threads + 1
  | .enqueueNotifying _ => threads
  | .dequeueParked => threads
  | .dequeueWoken _ => threads + 1
  | .dequeueNotifying _ => threads
  | .crashed => 0

theorem effort_le (threads : Nat) (position : Position α) :
    effort threads position ≤ threads + 1 := by
  cases position <;> simp [effort]

theorem effort_notifyEnqueue_le (threads : Nat) (position : Position α) :
    effort threads (notifyEnqueue position) ≤ effort threads position + 1 := by
  cases position <;> simp [effort, notifyEnqueue]

theorem effort_notifyDequeue_le (threads : Nat) (position : Position α) :
    effort threads (notifyDequeue position) ≤ effort threads position + 1 := by
  cases position <;> simp [effort, notifyDequeue]

variable [Sequence C α]

/-- A thread that has tested the loop guard has no more to do than to park. -/
theorem effort_enqueueRound_le (threads : Nat) (thread : Thread) (queue : Store width C) (value : α)
    (copyThrows : Bool) :
    (enqueueRound thread queue value copyThrows).others = id ∧
      effort threads (enqueueRound thread queue value copyThrows).position ≤ threads := by
  unfold enqueueRound
  split
  · exact ⟨rfl, le_rfl⟩
  · split
    · exact ⟨rfl, Nat.zero_le threads⟩
    · exact ⟨rfl, le_rfl⟩

theorem effort_dequeueRound_le (threads : Nat) (thread : Thread) (queue : Store width C)
    (copyThrows : Bool) :
    (dequeueRound thread queue copyThrows).others = id ∧
      effort threads (dequeueRound thread queue copyThrows).position ≤ threads := by
  unfold dequeueRound
  split
  · exact ⟨rfl, le_rfl⟩
  · split
    · exact ⟨rfl, Nat.zero_le threads⟩
    · exact ⟨rfl, Nat.zero_le threads⟩
    · exact ⟨rfl, le_rfl⟩

/-- What a step earns: a call all the steps a thread can be made to take, the end of a wait one. -/
def earned (threads : Nat) (action : Action α) : Nat :=
  threads * (isCall action).toNat + (isEndWait action).toNat

/-- What a step that wakes nobody spends is covered by what it earns and by the fall of the stepping
thread's effort; a notification costs its thread all its effort and the others one each. -/
theorem effort_of_act (threads : Nat) {thread : Thread} {queue : Store width C}
    {position : Position α} {action : Action α} {effect : Effect Thread width C α}
    (enabled : act thread queue position action = some effect) :
    effect.others = id ∧ (isInternal action).toNat + effort threads effect.position ≤
        earned threads action + effort threads position ∨
      action = .notify ∧ effort threads position = threads ∧
        effort threads effect.position = 0 ∧ effect.others position = position ∧
          ∀ other, effort threads (effect.others other) ≤ effort threads other + 1 := by
  cases action with
  | enqueue value copyThrows =>
      simp only [act] at enabled
      split at enabled <;> cases enabled
      obtain ⟨alone, low⟩ := effort_enqueueRound_le threads thread queue value copyThrows
      exact .inl ⟨alone, by simpa [isInternal, isCall, isEndWait, earned, effort] using low⟩
  | dequeue copyThrows =>
      simp only [act] at enabled
      split at enabled <;> cases enabled
      obtain ⟨alone, low⟩ := effort_dequeueRound_le threads thread queue copyThrows
      exact .inl ⟨alone, by simpa [isInternal, isCall, isEndWait, earned, effort] using low⟩
  | endWait bret =>
      have earns : earned threads (.endWait bret : Action α) = 1 := by
        simp [earned, isCall, isEndWait]
      simp only [act] at enabled
      split at enabled <;> cases enabled
      all_goals
        refine .inl ⟨rfl, ?_⟩
        rw [earns]
        change 0 + (threads + 1) ≤ 1 + threads
        omega
  | resume copyThrows =>
      simp only [act] at enabled
      split at enabled <;> cases enabled
      case h_1.refl value =>
        obtain ⟨alone, low⟩ := effort_enqueueRound_le threads thread queue value copyThrows
        refine .inl ⟨alone, ?_⟩
        change 1 + effort threads _ ≤ threads * 0 + 0 + (threads + 1)
        omega
      case h_3.refl =>
        obtain ⟨alone, low⟩ := effort_dequeueRound_le threads thread queue copyThrows
        refine .inl ⟨alone, ?_⟩
        change 1 + effort threads _ ≤ threads * 0 + 0 + (threads + 1)
        omega
      all_goals exact .inl ⟨rfl, by simp [isInternal, isCall, isEndWait, earned, effort]⟩
  | notify =>
      simp only [act] at enabled
      split at enabled <;> cases enabled
      case h_1.refl value => exact .inr ⟨rfl, rfl, rfl, rfl, effort_notifyDequeue_le threads⟩
      case h_2.refl value => exact .inr ⟨rfl, rfl, rfl, rfl, effort_notifyEnqueue_le threads⟩
  | clear | size | empty | full =>
      simp only [act] at enabled
      split at enabled <;> cases enabled
      exact .inl ⟨rfl, by simp [isInternal, isCall, isEndWait, earned, effort]⟩

section Bound

variable [Fintype Thread] [DecidableEq Thread]

/-- The effort of all threads. -/
def totalEffort (system : System Thread width C α) : Nat :=
  tally (effort (Fintype.card Thread)) system.position

/-- What a step spends is covered by what it earns and by the fall of the effort. -/
theorem totalEffort_step {before after : System Thread width C α} {choice : Thread × Action α}
    (taken : step before choice = some after) :
    (isInternal choice.2).toNat + totalEffort after ≤
      earned (Fintype.card Thread) choice.2 + totalEffort before := by
  obtain ⟨effect, enabled, rfl⟩ := Threads.step_eq_some.mp taken
  obtain ⟨thread, action⟩ := choice
  rcases effort_of_act (Fintype.card Thread) enabled with
    ⟨alone, low⟩ | ⟨rfl, full, spent, keeps, others⟩
  · have moved := tally_update (effort (Fintype.card Thread)) before.position thread
      effect.position
    dsimp only at low
    simp only [totalEffort, before.apply_position_of_id thread effect alone]
    omega
  · -- the notifying thread gives up more than the threads it wakes can get
    have moved := tally_update (effort (Fintype.card Thread))
      (fun other => effect.others (before.position other)) thread effect.position
    have woken : tally (effort (Fintype.card Thread))
          (fun other => effect.others (before.position other)) <
        totalEffort before + Fintype.card Thread :=
      tally_lt_of_others thread (le_of_eq (congrArg _ keeps)) fun other => others _
    simp only [keeps, full, spent] at moved
    change 1 + tally (effort (Fintype.card Thread)) (before.apply thread effect).position ≤
      Fintype.card Thread * 0 + 0 + totalEffort before
    simp only [System.apply]
    omega

/-- The steps a run takes on its own are covered by its calls, the ends of its waits and the effort
it starts with. -/
theorem internal_steps_add_effort_le {schedule : List (Thread × Action α)}
    {system final : System Thread width C α} (execution : run step system schedule = some final) :
    schedule.countP (fun choice => isInternal choice.2) + totalEffort final ≤
      Fintype.card Thread * schedule.countP (fun choice => isCall choice.2) +
        schedule.countP (fun choice => isEndWait choice.2) + totalEffort system := by
  have bound := countP_spends_le (fun _ _ _ => totalEffort_step) execution
  simpa only [earned, List.sum_map_add, List.sum_map_mul_left, sum_toNat_eq_countP] using bound

/-- In every run, exceptions and `clear` calls included, the threads take no more steps of their own
than one for each wait that ended spuriously or by the timeout and, for each call of `enqueue` or
`dequeue`, as many as there are threads. -/
theorem internal_steps_le (queueMaxSize : SizeT width) {schedule : List (Thread × Action α)}
    {final : System Thread width C α}
    (execution : run step (initial queueMaxSize) schedule = some final) :
    schedule.countP (fun choice => isInternal choice.2) ≤
      Fintype.card Thread * schedule.countP (fun choice => isCall choice.2) +
        schedule.countP fun choice => isEndWait choice.2 := by
  have bound := internal_steps_add_effort_le execution
  have nobody : totalEffort (initial queueMaxSize : System Thread width C α) = 0 :=
    tally_const_zero fun _ => rfl
  omega

/-- Two consumers woken by one message, of which one has to park again. -/
theorem internal_steps_le_two_consumers :
    ∃ (schedule : List (Fin 3 × Action Nat)) (final : System (Fin 3) 32 (List Nat) Nat),
      run step (initial 1) schedule = some final ∧
        schedule.countP (fun choice => isInternal choice.2) = 4 ∧ 4 ≤ 3 * 3 + 0 := by
  let schedule : List (Fin 3 × Action Nat) :=
    [(0, .dequeue false), (1, .dequeue false), (2, .enqueue 7 false), (2, .notify),
      (0, .resume false), (1, .resume false), (0, .notify)]
  have enabled : (run step (initial 1 : System (Fin 3) 32 (List Nat) Nat) schedule).isSome := by
    decide
  have execution := (Option.some_get enabled).symm
  exact ⟨schedule, _, execution, rfl, internal_steps_le 1 execution⟩

omit [Fintype Thread] in
/-- A thread that has something to do on its own can do it. -/
theorem exists_internal_step {system : System Thread width C α} {thread : Thread}
    (safe : system.position thread ≠ .crashed) (resume : step system (thread, .resume false) = none)
    (notify : step system (thread, .notify) = none) :
    system.position thread = .idle ∨ (∃ value, system.position thread = .enqueueParked value) ∨
      system.position thread = .dequeueParked := by
  simp only [step, Threads.step, Option.map_eq_none_iff] at resume notify
  cases position : system.position thread with
  | idle => exact .inl rfl
  | enqueueParked value => exact .inr (.inl ⟨value, rfl⟩)
  | dequeueParked => exact .inr (.inr rfl)
  | crashed => exact (safe position).elim
  | enqueueWoken value bret | dequeueWoken bret =>
      rw [position] at resume
      cases bret <;> cases resume
  | enqueueNotifying value | dequeueNotifying value =>
      rw [position] at notify
      cases notify

end Bound

section Settling

variable [DecidableEq Thread]

/-- What the threads that wait can rely on. -/
structure Notified (queueMaxSize : SizeT width) (system : System Thread width C α) : Prop where
  consistent : Consistent queueMaxSize system
  consumers : consumerWatch.Kept system
  producers : ProducersNotified system

theorem notified_initial (queueMaxSize : SizeT width) :
    Notified queueMaxSize (initial queueMaxSize : System Thread width C α) where
  consistent := consistent_initial queueMaxSize
  consumers := fun available => by simp [consumerWatch, initial, Store.construct] at available
  producers := by
    rintro ⟨thread, value, parked⟩
    cases parked

theorem Notified.step {queueMaxSize : SizeT width} {before after : System Thread width C α}
    {choice : Thread × Action α} (notified : Notified queueMaxSize before)
    (covered : ClearCovered before choice)
    (taken : ZenMessageQueueCondi.step before choice = some after) :
    Notified queueMaxSize after where
  consistent := notified.consistent.step taken
  consumers := by
    obtain ⟨effect, enabled, rfl⟩ := Threads.step_eq_some.mp taken
    exact (does_of_act enabled).respects_consumers.kept notified.consumers
  producers := producersNotified_step notified.consistent notified.producers covered taken

/-- Where no thread can go on by itself, every thread in a call waits for something the queue does
not have. -/
theorem Notified.settled [Fintype Thread] {queueMaxSize : SizeT width}
    {system : System Thread width C α} (notified : Notified queueMaxSize system)
    (resume : ∀ thread, ZenMessageQueueCondi.step system (thread, .resume false) = none)
    (notify : ∀ thread, ZenMessageQueueCondi.step system (thread, .notify) = none)
    (thread : Thread) :
    system.position thread = .idle ∨
      (∃ value, system.position thread = .enqueueParked value) ∧
          system.shared.queueCurSize = system.shared.queueMaxSize ∨
        system.position thread = .dequeueParked ∧ system.shared.queueCurSize = 0 := by
  obtain ⟨consistent, consumers, producers⟩ := notified
  have resting other := exists_internal_step (consistent.safe other) (resume other) (notify other)
  rcases resting thread with idle | producer | consumer
  · exact .inl idle
  · refine .inr (.inl ⟨producer, ?_⟩)
    by_contra notFull
    have room : system.shared.queueCurSize < system.shared.queueMaxSize := by
      rw [BitVec.lt_def, consistent.valid.counted]
      exact consistent.valid.room_of_ne notFull
    obtain ⟨notifier, value, owes⟩ := producers ⟨thread, producer⟩ room
    have rests := resting notifier
    simp [owes] at rests
  · refine .inr (.inr ⟨consumer, ?_⟩)
    by_contra notEmpty
    have available : 0 < system.shared.queueCurSize := by
      rw [BitVec.lt_def]
      simpa [Nat.pos_iff_ne_zero] using SizeT.eq_zero_iff.not.mp notEmpty
    obtain ⟨notifier, value, owes⟩ := consumers available ⟨thread, consumer⟩
    have rests := resting notifier
    simp [owes] at rests

/-- The end of a run whose `clear` calls are all covered. -/
theorem notified_of_throughout {queueMaxSize : SizeT width} {schedule : List (Thread × Action α)}
    {before after : System Thread width C α} (notified : Notified queueMaxSize before)
    (covered : Throughout ZenMessageQueueCondi.step ClearCovered before schedule)
    (execution : run ZenMessageQueueCondi.step before schedule = some after) :
    Notified queueMaxSize after :=
  invariant_of_throughout (Notified queueMaxSize) notified
    (fun _ _ _ notified covered taken => notified.step covered taken) covered execution

variable [Fintype Thread]

/-- After a run whose `clear` calls are all covered, the steps the threads can take on their own are
bounded by their number alone, however they are scheduled; and when none is left, every `enqueue`
that is still waiting finds the queue full and every `dequeue` finds it empty. -/
theorem internal_run_settles (queueMaxSize : SizeT width)
    {schedule inner : List (Thread × Action α)} {system after : System Thread width C α}
    (execution : run step (initial queueMaxSize) schedule = some system)
    (covered : Throughout step ClearCovered (initial queueMaxSize : System Thread width C α)
      schedule)
    (internal : ∀ choice ∈ inner, isInternal choice.2 = true)
    (continued : run step system inner = some after) :
    inner.length ≤ Fintype.card Thread * (Fintype.card Thread + 1) ∧
      ((∀ thread (action : Action α), isInternal action = true →
          step after (thread, action) = none) →
        ∀ thread, after.position thread = .idle ∨
          (∃ value, after.position thread = .enqueueParked value) ∧
              after.shared.queueCurSize = after.shared.queueMaxSize ∨
            after.position thread = .dequeueParked ∧ after.shared.queueCurSize = 0) := by
  constructor
  · have bound := internal_steps_add_effort_le continued
    have all : inner.countP (fun choice => isInternal choice.2) = inner.length :=
      List.countP_eq_length.mpr internal
    have noCall : inner.countP (fun choice => isCall choice.2) = 0 :=
      List.countP_eq_zero.mpr fun choice member => by
        simp [(earns_nothing_of_isInternal (internal choice member)).1]
    have noEnd : inner.countP (fun choice => isEndWait choice.2) = 0 :=
      List.countP_eq_zero.mpr fun choice member => by
        simp [(earns_nothing_of_isInternal (internal choice member)).2.1]
    have most : totalEffort system ≤ Fintype.card Thread * (Fintype.card Thread + 1) := by
      have each := Finset.sum_le_card_nsmul Finset.univ
        (fun thread => effort (Fintype.card Thread) (system.position thread))
        (Fintype.card Thread + 1) fun thread _ => effort_le _ _
      simpa [totalEffort, tally] using each
    rw [all, noCall, noEnd] at bound
    omega
  · have notified := notified_of_throughout (notified_initial queueMaxSize) covered execution
    have innerCovered : Throughout step ClearCovered system inner := by
      intro front choice isPrefix state _ isClear
      have own := internal choice (isPrefix.subset (by simp))
      exact ((earns_nothing_of_isInternal own).2.2 isClear).elim
    exact fun stuck => (notified_of_throughout notified innerCovered continued).settled
      (fun thread => stuck thread (.resume false) rfl) fun thread => stuck thread .notify rfl

/-- Of two consumers woken by one message the second parks again and is right to. -/
theorem internal_run_settles_two_consumers :
    ∃ schedule, ∃ after : System (Fin 3) 32 (List Nat) Nat,
      run step (initial 1) schedule = some after ∧ after.position 1 = .dequeueParked ∧
        ∀ thread, after.position thread = .idle ∨
          (∃ value, after.position thread = .enqueueParked value) ∧
              after.shared.queueCurSize = after.shared.queueMaxSize ∨
            after.position thread = .dequeueParked ∧ after.shared.queueCurSize = 0 := by
  let schedule : List (Fin 3 × Action Nat) :=
    [(0, .dequeue false), (1, .dequeue false), (2, .enqueue 7 false)]
  let inner : List (Fin 3 × Action Nat) :=
    [(2, .notify), (0, .resume false), (1, .resume false), (0, .notify)]
  have enabled : (run step (initial 1 : System (Fin 3) 32 (List Nat) Nat)
      (schedule ++ inner)).isSome := by
    decide
  obtain ⟨after, whole⟩ := Option.isSome_iff_exists.mp enabled
  obtain ⟨system, execution, continued⟩ := run_append_eq_some.mp whole
  have covered : Throughout step ClearCovered
      (initial 1 : System (Fin 3) 32 (List Nat) Nat) schedule :=
    .cons nofun rfl (.cons nofun rfl (.cons nofun rfl (.nil _)))
  obtain ⟨_, settles⟩ := internal_run_settles 1 execution covered (by decide) continued
  refine ⟨schedule ++ inner, after, whole, ?_⟩
  obtain rfl := Option.some.inj whole
  refine ⟨rfl, settles fun thread action internal => ?_⟩
  cases action with
  | resume copyThrows | notify => match thread with | 0 | 1 | 2 => rfl
  | _ => cases internal

end Settling
end ZenMessageQueueCondi
end BoostTest
