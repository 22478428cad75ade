import BoostTest.Lib.Solo
import BoostTest.Queue.Condi

/-!
# Overtaking at the condition-variable queue

`notify_all` only ends the wait: before a woken consumer takes the lock again another one may have
called `dequeue` and got the message, and the woken consumer has to park once more.  Nothing bounds
how often this happens, so a consumer can wait forever at a queue that any number of messages pass
through.
-/

namespace BoostTest
namespace ZenMessageQueueCondi

open Execution Threads

variable {Thread C α : Type*} {width : Nat} [Sequence C α]

section Solo

variable {thread : Thread} {queue after : Store width C}

/-- An `enqueue` that finds room, up to its return. -/
theorem solo_enqueue (notFull : queue.queueCurSize ≠ queue.queueMaxSize) (value : α) :
    solo (act thread) queue .idle [.enqueue value false, .notify] =
      some
        { shared := queue.enqueueBody value
          position := .idle
          events := [.moved thread (.push value), .returned thread (.enqueue value 0)]
          others := notifyDequeue } := by
  have pushed : act thread queue .idle (.enqueue value false) =
      some
        { shared := queue.enqueueBody value
          position := .enqueueNotifying value
          events := [.moved thread (.push value)] } := by
    simp only [act, enqueueRound, if_neg notFull, Bool.false_eq_true, if_false]
  rw [solo, pushed]
  rfl

/-- A `dequeue` that finds a message, up to its return. -/
theorem solo_dequeue {value : α} (notEmpty : queue.queueCurSize ≠ 0)
    (done : queue.dequeueBody false = .done value after) :
    solo (act thread) queue .idle [.dequeue false, .notify] =
      some
        { shared := after
          position := .idle
          events := [.moved thread (.pop value), .returned thread (.dequeue 0 (some value))]
          others := notifyEnqueue } := by
  have popped : act thread queue .idle (.dequeue false) =
      some
        { shared := after
          position := .dequeueNotifying value
          events := [.moved thread (.pop value)] } := by
    simp only [act, dequeueRound, if_neg notEmpty, done]
  rw [solo, popped]
  rfl

/-- A woken `dequeue` that finds nothing. -/
theorem solo_resume (isEmpty : queue.queueCurSize = 0) :
    solo (act thread) queue (.dequeueWoken true) [(.resume false : Action α)] =
      some { shared := queue, position := .dequeueParked } := by
  have parked : act thread queue (.dequeueWoken true) (.resume false : Action α) =
      some { shared := queue, position := .dequeueParked } := by
    simp only [act, dequeueRound, if_pos isEmpty]
  rw [solo, parked]
  rfl

end Solo

variable [DecidableEq Thread]

/-- A consumer waits at an empty queue, and nobody else is using it. -/
structure WaitsAlone (queueMaxSize : SizeT width) (waiting : Thread)
    (system : System Thread width C α) : Prop where
  sameMax : system.shared.queueMaxSize = queueMaxSize
  valid : system.shared.Valid
  nothing : system.shared.contents = ([] : List α)
  parked : system.position waiting = .dequeueParked
  others : ∀ other, other ≠ waiting → system.position other = .idle

/-- A message goes from a producer to a consumer that has not waited, and the consumer that has
waited comes too late. -/
def overtaking (waiting producer consumer : Thread) (value : α) : List (Thread × Action α) :=
  [.enqueue value false, .notify].map (Prod.mk producer) ++
    [.dequeue false, .notify].map (Prod.mk consumer) ++ [.resume false].map (Prod.mk waiting)

variable {queueMaxSize : SizeT width} {waiting producer consumer : Thread}

omit [Sequence C α] in
/-- A thread that has come back to rest leaves the others at rest. -/
theorem idle_apply {system : System Thread width C α} {thread : Thread}
    (effect : Effect Thread width C α)
    (others : ∀ other, other ≠ waiting → system.position other = .idle)
    (rests : effect.position = .idle) (keeps : effect.others .idle = .idle) (other : Thread)
    (different : other ≠ waiting) : (system.apply thread effect).position other = .idle := by
  by_cases same : other = thread
  · rw [same, System.apply_position_self, rests]
  · rw [System.apply_position_other _ _ _ same, others other different, keeps]

/-- An empty queue takes a message and gives it away again. -/
theorem exists_push_pop {queue : Store width C} (valid : queue.Valid)
    (nothing : queue.contents = ([] : List α)) (room : queue.queueMaxSize ≠ 0) (value : α) :
    queue.queueCurSize ≠ queue.queueMaxSize ∧ (queue.enqueueBody value).queueCurSize ≠ 0 ∧
      ∃ after, (queue.enqueueBody value).dequeueBody false = .done value after ∧ after.Valid ∧
        after.contents = ([] : List α) ∧ after.queueCurSize = 0 := by
  have isEmpty : queue.queueCurSize = 0 := by
    rw [SizeT.eq_zero_iff, valid.counted, nothing, List.length_nil]
  have notFull : queue.queueCurSize ≠ queue.queueMaxSize := by
    rw [isEmpty]
    exact room.symm
  have stored : (queue.enqueueBody value).Valid :=
    valid.enqueueBody (valid.room_of_ne notFull) value
  have messages : (queue.enqueueBody value).contents = value :: ([] : List α) := by
    rw [Store.contents_enqueueBody, nothing, List.nil_append]
  obtain ⟨_, after, done, taken⟩ := Store.dequeueBody_of_cons messages
  have validAfter := stored.dequeueBody done
  refine ⟨notFull, fun zero => ?_, after, done, validAfter, taken, ?_⟩
  · have one := stored.counted
    rw [messages, zero] at one
    cases one
  · rw [SizeT.eq_zero_iff, validAfter.counted, taken, List.length_nil]

/-- Overtaking leaves everything as it was but for the history. -/
theorem WaitsAlone.overtaken {system : System Thread width C α}
    (waits : WaitsAlone queueMaxSize waiting system) (room : queueMaxSize ≠ 0)
    (notProducer : producer ≠ waiting) (notConsumer : consumer ≠ waiting) (value : α) :
    ∃ after, run step system (overtaking waiting producer consumer value) = some after ∧
      WaitsAlone queueMaxSize waiting after ∧
        after.history = system.history ++
          [.moved producer (.push value), .returned producer (.enqueue value 0),
            .moved consumer (.pop value), .returned consumer (.dequeue 0 (some value))] := by
  obtain ⟨sameMax, valid, nothing, parked, others⟩ := waits
  obtain ⟨notFull, notEmpty, store, done, validAfter, taken, emptyAfter⟩ :=
    exists_push_pop valid nothing (sameMax.trans_ne room) value
  -- the producer's call ends the wait
  have enqueues := run_solo act system producer [.enqueue value false, .notify]
  rw [others producer notProducer, solo_enqueue notFull, Option.map_some] at enqueues
  generalize reached : system.apply producer _ = enqueued at enqueues
  have idleEnqueued : ∀ other, other ≠ waiting → enqueued.position other = .idle := by
    rw [← reached]
    exact idle_apply _ others rfl rfl
  have woken : enqueued.position waiting = .dequeueWoken true := by
    rw [← reached, System.apply_position_other _ _ _ notProducer.symm, parked]
    rfl
  have holds : enqueued.shared = system.shared.enqueueBody value := by rw [← reached]; rfl
  -- the other consumer takes the lock first
  have dequeues := run_solo act enqueued consumer [.dequeue false, .notify]
  rw [idleEnqueued consumer notConsumer, holds, solo_dequeue notEmpty done, Option.map_some]
    at dequeues
  generalize reachedNext : enqueued.apply consumer _ = dequeued at dequeues
  have idleDequeued : ∀ other, other ≠ waiting → dequeued.position other = .idle := by
    rw [← reachedNext]
    exact idle_apply _ idleEnqueued rfl rfl
  have late : dequeued.position waiting = .dequeueWoken true := by
    rw [← reachedNext, System.apply_position_other _ _ _ notConsumer.symm, woken]
    rfl
  have left : dequeued.shared = store := by rw [← reachedNext]; rfl
  -- the woken consumer finds nothing
  have resumes := run_solo act dequeued waiting [.resume false]
  rw [late, left, solo_resume emptyAfter, Option.map_some] at resumes
  refine ⟨_, run_append_eq_some.mpr ⟨_, run_append_eq_some.mpr ⟨_, enqueues, dequeues⟩, resumes⟩,
    ⟨?_, validAfter, taken, ?_, fun other different => ?_⟩, ?_⟩
  · exact (Store.counters_of_dequeueBody done).1.trans sameMax
  · rw [System.apply_position_self]
  · rw [System.apply_position_other _ _ _ different]
    exact idleDequeued other different
  · rw [System.apply_history, ← reachedNext, System.apply_history, ← reached, System.apply_history]
    simp

/-- One message after the other overtakes the consumer that waits. -/
theorem WaitsAlone.exists_run {system : System Thread width C α}
    (waits : WaitsAlone queueMaxSize waiting system) (room : queueMaxSize ≠ 0)
    (notProducer : producer ≠ waiting) (notConsumer : consumer ≠ waiting) (values : List α) :
    ∃ after, run step system (values.flatMap (overtaking waiting producer consumer)) = some after ∧
      after.position waiting = .dequeueParked ∧
        Event.ofThread waiting after.history = Event.ofThread waiting system.history ∧
          Event.accepted (Event.ofThread producer after.history) =
              Event.accepted (Event.ofThread producer system.history) ++ values ∧
            Event.received (Event.ofThread consumer after.history) =
              Event.received (Event.ofThread consumer system.history) ++ values := by
  induction values generalizing system with
  | nil =>
      exact ⟨system, rfl, waits.parked, rfl, (List.append_nil _).symm, (List.append_nil _).symm⟩
  | cons value values induction =>
      obtain ⟨next, first, still, history⟩ :=
        waits.overtaken room notProducer notConsumer value
      obtain ⟨after, rest, parked, unseen, accepted, received⟩ := induction still
      refine ⟨after, ?_, parked, ?_, ?_, ?_⟩
      · rw [List.flatMap_cons]
        exact run_append_eq_some.mpr ⟨next, first, rest⟩
      · rw [unseen, history]
        simp [Event.ofThread, Event.thread, notProducer, notConsumer]
      · rw [accepted, history]
        by_cases same : consumer = producer <;>
          simp [Event.ofThread, Event.thread, Event.accepted, same]
      · rw [received, history]
        by_cases same : producer = consumer <;>
          simp [Event.ofThread, Event.thread, Event.received, same]

/-- The steps of the consumer that waits. -/
theorem filter_overtaking (notProducer : producer ≠ waiting) (notConsumer : consumer ≠ waiting)
    (values : List α) :
    ((values.flatMap (overtaking waiting producer consumer)).filter (·.1 = waiting)).map Prod.snd =
      List.replicate values.length (.resume false) := by
  induction values with
  | nil => rfl
  | cons value values induction =>
      rw [List.flatMap_cons, List.filter_append, List.map_append, induction, List.length_cons,
        List.replicate_succ]
      simp [overtaking, notProducer, notConsumer]

omit [DecidableEq Thread] in
/-- No wait ends but by a notification. -/
theorem ne_endWait_of_mem_overtaking {values : List α} {choice : Thread × Action α}
    (member : choice ∈ values.flatMap (overtaking waiting producer consumer)) (bret : Bool) :
    choice.2 ≠ .endWait bret := by
  obtain ⟨value, _, member⟩ := List.mem_flatMap.mp member
  simp only [overtaking, List.map_cons, List.map_nil, List.cons_append, List.nil_append,
    List.mem_cons, List.not_mem_nil, or_false] at member
  rcases member with rfl | rfl | rfl | rfl | rfl <;> simp

/-- A consumer that comes first waits. -/
theorem exists_waitsAlone (queueMaxSize : SizeT width) (waiting : Thread) :
    ∃ system : System Thread width C α,
      step (initial queueMaxSize) (waiting, .dequeue false) = some system ∧
        WaitsAlone queueMaxSize waiting system ∧ system.history = [] := by
  have parks : act waiting (Store.construct queueMaxSize (Sequence.empty : C)) .idle
      (.dequeue false : Action α) =
      some { shared := Store.construct queueMaxSize Sequence.empty, position := .dequeueParked } :=
    congrArg some (if_pos rfl)
  refine ⟨_, Threads.step_eq_some.mpr ⟨_, parks, rfl⟩, ⟨rfl, .construct queueMaxSize,
    Store.contents_construct queueMaxSize, System.apply_position_self _ _ _, ?_⟩, rfl⟩
  exact fun other different => System.apply_position_other _ _ _ different

/-- Any number of messages can pass a consumer that called first, each of them waking it, and no
wait ending otherwise: a thread that calls `dequeue` only when a message is there gets all of
them. -/
theorem overtaken_any_number (room : queueMaxSize ≠ 0) (notProducer : producer ≠ waiting)
    (notConsumer : consumer ≠ waiting) (values : List α) :
    ∃ schedule, ∃ system : System Thread width C α,
      run step (initial queueMaxSize) schedule = some system ∧
        schedule.head? = some (waiting, .dequeue false) ∧
          (∀ choice ∈ schedule, ∀ bret, choice.2 ≠ .endWait bret) ∧
            (schedule.filter (·.1 = waiting)).map Prod.snd =
              .dequeue false :: List.replicate values.length (.resume false) ∧
              system.position waiting = .dequeueParked ∧
                Event.ofThread waiting system.history = [] ∧
                  Event.accepted (Event.ofThread producer system.history) = values ∧
                    Event.received (Event.ofThread consumer system.history) = values := by
  obtain ⟨first, starts, waits, fresh⟩ := @exists_waitsAlone Thread C α _ _ _ queueMaxSize waiting
  obtain ⟨system, execution, parked, unseen, accepted, received⟩ :=
    waits.exists_run room notProducer notConsumer values
  rw [fresh] at unseen accepted received
  refine ⟨(waiting, .dequeue false) :: values.flatMap (overtaking waiting producer consumer),
    system, ?_, rfl, ?_, ?_, parked, unseen, accepted, received⟩
  · rw [run_cons, starts]
    exact execution
  · rintro choice member bret
    rcases List.mem_cons.mp member with rfl | later
    · nofun
    · exact ne_endWait_of_mem_overtaking later bret
  · rw [List.filter_cons_of_pos (by simp), List.map_cons,
      filter_overtaking notProducer notConsumer]

/-- Three messages pass a consumer that called first. -/
theorem overtaken_any_number_three :
    ∃ schedule, ∃ system : System (Fin 3) 32 (List Nat) Nat,
      run step (initial 1) schedule = some system ∧
        schedule.head? = some (0, .dequeue false) ∧ system.position 0 = .dequeueParked ∧
          Event.accepted (Event.ofThread 1 system.history) = [7, 8, 9] ∧
            Event.received (Event.ofThread 2 system.history) = [7, 8, 9] := by
  have room : (1 : SizeT 32) ≠ 0 := by decide
  obtain ⟨schedule, system, execution, head, _, _, parked, _, accepted, received⟩ :=
    @overtaken_any_number (Fin 3) (List Nat) Nat 32 _ _ 1 0 1 2 room (by decide) (by decide)
      [7, 8, 9]
  exact ⟨schedule, system, execution, head, parked, accepted, received⟩

end ZenMessageQueueCondi
end BoostTest
