import BoostTest.Lib.Solo
import BoostTest.Queue.Condi
import BoostTest.Queue.Sem

/-!
# One thread calling a message queue

With no other thread running nothing can end a wait but its timeout, so a call either goes through
at once or returns -1.  The functions below are the member functions under that reading, for any
container.  For a container that is a sequence, each of them is carried out by a schedule of the
system of threads.
-/

namespace BoostTest

open Threads

/-- A call of a member function. -/
inductive Call (α : Type*) where
  | enqueue (value : α)
  | dequeue
  | clear
  | size
  | empty
  | full
  deriving DecidableEq, Repr

variable {Thread C α : Type*} {width : Nat}

namespace ZenMessageQueueCondi

section Calls

variable [Container C α]

/-- `enqueue(value, wait_time)`. -/
def enqueue (queue : Store width C) (value : α) : Answer α × Store width C :=
  if queue.queueCurSize = queue.queueMaxSize then (.enqueue value (-1), queue)
  else (.enqueue value 0, queue.enqueueBody value)

/-- `dequeue(value_data, wait_time)`. -/
def dequeue (queue : Store width C) : Option (Answer α × Store width C) :=
  if queue.queueCurSize = 0 then some (.dequeue (-1) none, queue)
  else
    match queue.dequeueBody false with
    | .done value after => some (.dequeue 0 (some value), after)
    | _ => none

/-- Any member function. -/
def call (queue : Store width C) : Call α → Option (Answer α × Store width C)
  | .enqueue value => some (enqueue queue value)
  | .dequeue => dequeue queue
  | .clear => some (.clear, queue.clear)
  | .size => some (.size queue.size.toNat, queue)
  | .empty => some (.empty queue.empty, queue)
  | .full => some (.full queue.full, queue)

/-- What a call that returned 0 has done. -/
theorem cases_of_succeeded {queue after : Store width C} {input : Call α} {answer : Answer α}
    (called : call queue input = some (answer, after)) (success : answer.succeeded = true) :
    (∃ value, input = .enqueue value ∧ queue.queueCurSize ≠ queue.queueMaxSize ∧
        answer = .enqueue value 0 ∧ after = queue.enqueueBody value) ∨
      ∃ value, input = .dequeue ∧ queue.queueCurSize ≠ 0 ∧
        queue.dequeueBody false = .done value after ∧ answer = .dequeue 0 (some value) := by
  cases input with
  | enqueue value =>
      rw [call, enqueue] at called
      split at called <;> cases called
      case isTrue.refl => cases success
      case isFalse.refl notFull => exact .inl ⟨value, rfl, notFull, rfl, rfl⟩
  | dequeue =>
      rw [call, dequeue] at called
      split at called
      case isTrue => cases called; cases success
      case isFalse notEmpty =>
        split at called <;> cases called
        case h_1.refl value done => exact .inr ⟨value, rfl, notEmpty, done, rfl⟩
  | _ => cases called; cases success

/-- A queue with room for all of them accepts every message. -/
theorem execute_enqueues {queue : Store width C} {values : List α}
    (room : queue.queueCurSize.toNat + values.length ≤ queue.queueMaxSize.toNat) :
    ∃ final, CallSequence.execute call queue (values.map .enqueue) =
        some (values.map (Answer.enqueue · 0), final) ∧
      final.queueCurSize.toNat = queue.queueCurSize.toNat + values.length ∧
        final.queueMaxSize = queue.queueMaxSize := by
  induction values generalizing queue with
  | nil => exact ⟨queue, rfl, rfl, rfl⟩
  | cons value values induction =>
      rw [List.length_cons] at room
      have notFull : queue.queueCurSize ≠ queue.queueMaxSize := by
        intro isFull
        rw [isFull] at room
        omega
      have accepted : call queue (.enqueue value) =
          some (.enqueue value 0, queue.enqueueBody value) := by
        rw [call, enqueue, if_neg notFull]
      have below : queue.queueCurSize.toNat < queue.queueMaxSize.toNat := by omega
      have counted : (queue.enqueueBody value).queueCurSize.toNat = queue.queueCurSize.toNat + 1 :=
        SizeT.toNat_increment below
      obtain ⟨final, executed, finalCounted, sameMax⟩ :=
        @induction (queue.enqueueBody value)
          (by rw [counted, Store.enqueueBody_queueMaxSize]; omega)
      refine ⟨final, ?_, ?_, sameMax⟩
      · exact CallSequence.execute_cons_eq_some.mpr ⟨_, _, _, accepted, executed, rfl⟩
      · rw [finalCounted, counted, List.length_cons]
        omega

/-- An empty queue refuses every `dequeue`. -/
theorem execute_dequeues {queue : Store width C} (isEmpty : queue.queueCurSize = 0)
    (attempts : Nat) :
    CallSequence.execute call queue (List.replicate attempts .dequeue) =
      some (List.replicate attempts (.dequeue (-1) none), queue) := by
  induction attempts with
  | zero => rfl
  | succ attempts induction =>
      have refused : call queue (.dequeue : Call α) = some (.dequeue (-1) none, queue) := by
        rw [call, dequeue, if_pos isEmpty]
      exact CallSequence.execute_cons_eq_some.mpr ⟨_, _, _, refused, induction, rfl⟩

end Calls

section Schedules

variable [Sequence C α]

theorem carries_enqueue (thread : Thread) (queue : Store width C) (value : α) :
    Carries (act thread) .idle Event.answers queue (enqueue queue value).1
      (enqueue queue value).2 := by
  by_cases isFull : queue.queueCurSize = queue.queueMaxSize
  · have parked : act thread queue .idle (.enqueue value false) =
        some { shared := queue, position := .enqueueParked value } := by
      simp [act, enqueueRound, isFull]
    rw [enqueue, if_pos isFull]
    -- the wait expires, and the thread takes the lock once more to return -1
    exact ⟨[.enqueue value false, .endWait false, .resume false], _,
      solo_cons parked (solo_cons rfl (solo_cons rfl rfl)), rfl, rfl, rfl, rfl⟩
  · have pushed : act thread queue .idle (.enqueue value false) =
        some
          { shared := queue.enqueueBody value
            position := .enqueueNotifying value
            events := [.moved thread (.push value)] } := by
      simp [act, enqueueRound, isFull]
    rw [enqueue, if_neg isFull]
    exact ⟨[.enqueue value false, .notify], _, solo_cons pushed (solo_cons rfl rfl),
      rfl, rfl, rfl, rfl⟩

theorem carries_dequeue (thread : Thread) {queue after : Store width C} {answer : Answer α}
    (called : dequeue queue = some (answer, after)) :
    Carries (act thread) .idle Event.answers queue answer after := by
  unfold dequeue at called
  split at called
  case isTrue isEmpty =>
    cases called
    have parked : act thread queue .idle (.dequeue false) =
        some { shared := queue, position := .dequeueParked } := by
      simp [act, dequeueRound, isEmpty]
    exact ⟨[.dequeue false, .endWait false, .resume false], _,
      solo_cons parked (solo_cons rfl (solo_cons rfl rfl)), rfl, rfl, rfl, rfl⟩
  case isFalse notEmpty =>
    split at called <;> cases called
    case h_1.refl value done =>
      have popped : act thread queue .idle (.dequeue false) =
          some
            { shared := after
              position := .dequeueNotifying value
              events := [.moved thread (.pop value)] } := by
        simp only [act, dequeueRound, if_neg notEmpty, done]
      exact ⟨[.dequeue false, .notify], _, solo_cons popped (solo_cons rfl rfl),
        rfl, rfl, rfl, rfl⟩

/-- Each call is carried out by an idle thread. -/
theorem carries_call (thread : Thread) (queue : Store width C) (input : Call α)
    (answer : Answer α) (after : Store width C)
    (called : call queue input = some (answer, after)) :
    Carries (act thread) .idle Event.answers queue answer after := by
  cases input with
  | enqueue value =>
      have carries := carries_enqueue thread queue value
      rw [show enqueue queue value = (answer, after) from Option.some.inj called] at carries
      exact carries
  | dequeue => exact carries_dequeue thread called
  | clear =>
      cases called
      exact .of_act .clear rfl rfl
  | size =>
      cases called
      exact .of_act .size rfl rfl
  | empty =>
      cases called
      exact .of_act .empty rfl rfl
  | full =>
      cases called
      exact .of_act .full rfl rfl

/-- On a valid queue every call is defined. -/
theorem exists_call_of_valid (queue : Store width C) (input : Call α) (valid : queue.Valid) :
    ∃ answer after, call queue input = some (answer, after) ∧ after.Valid ∧
      after.queueMaxSize = queue.queueMaxSize := by
  cases input with
  | enqueue value =>
      by_cases isFull : queue.queueCurSize = queue.queueMaxSize
      · exact ⟨_, queue, by rw [call, enqueue, if_pos isFull], valid, rfl⟩
      · exact ⟨_, _, by rw [call, enqueue, if_neg isFull],
          valid.enqueueBody (valid.room_of_ne isFull) value, rfl⟩
  | dequeue =>
      by_cases isEmpty : queue.queueCurSize = 0
      · exact ⟨_, queue, by rw [call, dequeue, if_pos isEmpty], valid, rfl⟩
      · obtain ⟨value, rest, messages⟩ :=
          List.exists_cons_of_ne_nil (valid.nonempty_of_ne_zero isEmpty)
        obtain ⟨_, after, done, _⟩ := Store.dequeueBody_of_cons messages
        exact ⟨.dequeue 0 (some value), after, by simp only [call, dequeue, if_neg isEmpty, done],
          valid.dequeueBody done, (Store.counters_of_dequeueBody done).1⟩
  | clear => exact ⟨_, _, rfl, .clear queue, rfl⟩
  | size => exact ⟨_, queue, rfl, valid, rfl⟩
  | empty => exact ⟨_, queue, rfl, valid, rfl⟩
  | full => exact ⟨_, queue, rfl, valid, rfl⟩

/-- On a valid queue every sequence of calls is defined. -/
theorem exists_execute_of_valid {queue : Store width C} (valid : queue.Valid)
    (inputs : List (Call α)) :
    ∃ answers final, CallSequence.execute call queue inputs = some (answers, final) ∧
      final.Valid ∧ final.queueMaxSize = queue.queueMaxSize := by
  refine CallSequence.exists_execute
    (fun after : Store width C => after.Valid ∧ after.queueMaxSize = queue.queueMaxSize)
    ?_ ⟨valid, rfl⟩ inputs
  rintro before input ⟨valid, sameMax⟩
  obtain ⟨answer, after, called, validAfter, stillMax⟩ := exists_call_of_valid before input valid
  exact ⟨answer, after, called, validAfter, stillMax.trans sameMax⟩

/-- A sequence of calls on a new queue is a run of the system in which one thread takes every
step. -/
theorem exists_run_of_calls [DecidableEq Thread] (thread : Thread) {queueMaxSize : SizeT width}
    {calls : List (Call α)} {answers : List (Answer α)} {final : Store width C}
    (executed : CallSequence.execute call (Store.construct queueMaxSize Sequence.empty) calls =
      some (answers, final)) :
    ∃ actions : List (Action α), ∃ after : System Thread width C α,
      Execution.run step (initial queueMaxSize) (actions.map (Prod.mk thread)) = some after ∧
        after.shared = final ∧ (∀ other, after.position other = .idle) ∧
          Event.answers after.history = answers :=
  Threads.exists_run_of_execute Event.answers_append (carries_call thread) (fun _ => rfl) executed

end Schedules
end ZenMessageQueueCondi

namespace ZenMessageQueueSem

section Calls

variable [Container C α]

/-- `enqueue(value, wait_time)`. -/
def enqueue (queue : Queue width C) (value : α) : Answer α × Queue width C :=
  match timedWait queue.semFull true with
  | none => (.enqueue value (-1), queue)
  | some left =>
      (.enqueue value 0,
        { store := queue.store.enqueueBody value
          semFull := left
          semEmpty := queue.semEmpty + 1 })

/-- `dequeue(value_data, wait_time)`. -/
def dequeue (queue : Queue width C) : Option (Answer α × Queue width C) :=
  match timedWait queue.semEmpty true with
  | none => some (.dequeue (-1) none, queue)
  | some left =>
      match queue.store.dequeueBody false with
      | .done value after =>
          some (.dequeue 0 (some value),
            { store := after, semFull := queue.semFull + 1, semEmpty := left })
      | _ => none

/-- Any member function. -/
def call (queue : Queue width C) : Call α → Option (Answer α × Queue width C)
  | .enqueue value => some (enqueue queue value)
  | .dequeue => dequeue queue
  | .clear => some (.clear, { queue with store := queue.store.clear })
  | .size => some (.size queue.store.size.toNat, queue)
  | .empty => some (.empty queue.store.empty, queue)
  | .full => some (.full queue.store.full, queue)

theorem enqueue_of_no_token {queue : Queue width C} (noToken : queue.semFull = 0) (value : α) :
    enqueue queue value = (.enqueue value (-1), queue) := by
  rw [enqueue, noToken]
  rfl

theorem enqueue_of_token {queue : Queue width C} {left : Nat} (token : queue.semFull = left + 1)
    (value : α) :
    enqueue queue value =
      (.enqueue value 0,
        { store := queue.store.enqueueBody value
          semFull := left
          semEmpty := queue.semEmpty + 1 }) := by
  rw [enqueue, token]
  rfl

theorem dequeue_of_no_token {queue : Queue width C} (noToken : queue.semEmpty = 0) :
    dequeue queue = some (.dequeue (-1) (none : Option α), queue) := by
  rw [dequeue, noToken]
  rfl

theorem dequeue_of_done {queue : Queue width C} {left : Nat} (token : queue.semEmpty = left + 1)
    {value : α} {after : Store width C} (done : queue.store.dequeueBody false = .done value after) :
    dequeue queue =
      some (.dequeue 0 (some value),
        { store := after, semFull := queue.semFull + 1, semEmpty := left }) := by
  rw [dequeue, token]
  simp only [timedWait, if_true, done]

theorem exists_done_of_dequeue {queue after : Queue width C} {left : Nat}
    (token : queue.semEmpty = left + 1) {answer : Answer α}
    (called : dequeue queue = some (answer, after)) :
    ∃ value shorter, queue.store.dequeueBody false = .done value shorter := by
  rw [dequeue, token] at called
  simp only [timedWait, if_true] at called
  split at called
  case h_1 value shorter done => exact ⟨value, shorter, done⟩
  case h_2 => cases called

/-- With a token left `dequeue` never gives up. -/
theorem dequeue_ne_refused {queue : Queue width C} {left : Nat}
    (token : queue.semEmpty = left + 1) (after : Queue width C) :
    dequeue queue ≠ some (.dequeue (-1) (none : Option α), after) := by
  rw [dequeue, token]
  simp only [timedWait, if_true]
  split <;> simp

end Calls

section Schedules

variable [Sequence C α]

theorem carries_enqueue (thread : Thread) (queue : Queue width C) (value : α) :
    Carries (act thread) .idle Event.answers queue (enqueue queue value).1
      (enqueue queue value).2 := by
  cases waited : timedWait queue.semFull true with
  | none =>
      rw [enqueue, waited]
      exact .of_act (.enqueue value false) rfl rfl
  | some left =>
      have took : act thread queue .idle (.enqueue value true) =
          some { shared := { queue with semFull := left }, position := .enqueueHolding value } := by
        simp [act, waited]
      rw [enqueue, waited]
      exact ⟨[.enqueue value true, .enter false, .post], _,
        solo_cons took (solo_cons rfl (solo_cons rfl rfl)), rfl, rfl, rfl, rfl⟩

theorem carries_dequeue (thread : Thread) {queue after : Queue width C} {answer : Answer α}
    (called : dequeue queue = some (answer, after)) :
    Carries (act thread) .idle Event.answers queue answer after := by
  unfold dequeue at called
  split at called
  case h_1 =>
    cases called
    exact .of_act (.dequeue false) rfl rfl
  case h_2 left waited =>
    split at called <;> cases called
    case h_1.refl value shorter done =>
      have took : act thread queue .idle (.dequeue true) =
          some { shared := { queue with semEmpty := left }, position := .dequeueHolding } := by
        simp [act, waited]
      have popped : act thread { queue with semEmpty := left } .dequeueHolding (.enter false) =
          some
            { shared := { queue with store := shorter, semEmpty := left }
              position := .dequeuePosting value
              events := [.moved thread (.pop value)] } := by
        simp [act, done]
      exact ⟨[.dequeue true, .enter false, .post], _,
        solo_cons took (solo_cons popped (solo_cons rfl rfl)), rfl, rfl, rfl, rfl⟩

/-- Each call is carried out by an idle thread. -/
theorem carries_call (thread : Thread) (queue : Queue width C) (input : Call α)
    (answer : Answer α) (after : Queue width C)
    (called : call queue input = some (answer, after)) :
    Carries (act thread) .idle Event.answers queue answer after := by
  cases input with
  | enqueue value =>
      have carries := carries_enqueue thread queue value
      rw [show enqueue queue value = (answer, after) from Option.some.inj called] at carries
      exact carries
  | dequeue => exact carries_dequeue thread called
  | clear =>
      cases called
      exact .of_act .clear rfl rfl
  | size =>
      cases called
      exact .of_act .size rfl rfl
  | empty =>
      cases called
      exact .of_act .empty rfl rfl
  | full =>
      cases called
      exact .of_act .full rfl rfl

/-- A sequence of calls on a new queue is a run of the system in which one thread takes every
step. -/
theorem exists_run_of_calls [DecidableEq Thread] (thread : Thread) {queueMaxSize : SizeT width}
    {calls : List (Call α)} {answers : List (Answer α)} {final : Queue width C}
    (executed : CallSequence.execute call (construct queueMaxSize Sequence.empty) calls =
      some (answers, final)) :
    ∃ actions : List (Action α), ∃ after : System Thread width C α,
      Execution.run step (initial queueMaxSize) (actions.map (Prod.mk thread)) = some after ∧
        after.shared = final ∧ (∀ other, after.position other = .idle) ∧
          Event.answers after.history = answers :=
  Threads.exists_run_of_execute Event.answers_append (carries_call thread) (fun _ => rfl) executed

end Schedules
end ZenMessageQueueSem
end BoostTest
