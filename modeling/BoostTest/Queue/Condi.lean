import BoostTest.Lib.Threads
import BoostTest.Queue.History
import BoostTest.Queue.Store

/-!
# The condition-variable queue

`zen_message_queue_condi` under any number of threads.  The critical sections under `queue_lock_`
are atomic, so the lock is free in every state.  A thread that finds the loop guard true parks on
the condition variable and gives the lock up in one step; `notify_all` unparks every parked thread,
and a parked thread may also wake spuriously or by a timeout.  An unparked thread has the result of
`timed_wait` in `bret` and still has to take the lock again before it goes on.
-/

namespace BoostTest
namespace ZenMessageQueueCondi

/-- Where a thread is with respect to the queue. -/
inductive Position (α : Type*) where
  | idle
  /-- Inside `cond_enqueue_.timed_wait`. -/
  | enqueueParked (value : α)
  /-- `cond_enqueue_.timed_wait` has ended with `bret`, the lock is not yet taken again. -/
  | enqueueWoken (value : α) (bret : Bool)
  /-- Past the critical section, `cond_dequeue_.notify_all()` not yet issued. -/
  | enqueueNotifying (value : α)
  /-- Inside `cond_dequeue_.timed_wait`. -/
  | dequeueParked
  | dequeueWoken (bret : Bool)
  /-- Past the critical section, `cond_enqueue_.notify_all()` not yet issued. -/
  | dequeueNotifying (value : α)
  /-- The thread has read or popped an empty container. -/
  | crashed
  deriving DecidableEq, Repr

/-- What the scheduler lets a thread do. -/
inductive Action (α : Type*) where
  /-- Call `enqueue(value)` and take the lock. -/
  | enqueue (value : α) (copyThrows : Bool)
  /-- Call `dequeue` and take the lock. -/
  | dequeue (copyThrows : Bool)
  /-- A `timed_wait` ends without a notification: spuriously, or by the timeout. -/
  | endWait (bret : Bool)
  /-- Take the lock again after `timed_wait`. -/
  | resume (copyThrows : Bool)
  /-- Issue the `notify_all` after the critical section and return 0. -/
  | notify
  | clear
  | size
  | empty
  | full
  deriving DecidableEq, Repr

/-- `cond_enqueue_.notify_all()`. -/
def notifyEnqueue {α : Type*} : Position α → Position α
  | .enqueueParked value => .enqueueWoken value true
  | position => position

/-- `cond_dequeue_.notify_all()`. -/
def notifyDequeue {α : Type*} : Position α → Position α
  | .dequeueParked => .dequeueWoken true
  | position => position

variable {Thread C α : Type*} {width : Nat}

/-- The effect of one step of a thread using the queue. -/
abbrev Effect (Thread : Type*) (width : Nat) (C α : Type*) :=
  Threads.Effect (Store width C) (Position α) (Event Thread α)

/-- A queue together with the threads using it. -/
abbrev System (Thread : Type*) (width : Nat) (C α : Type*) :=
  Threads.System Thread (Store width C) (Position α) (Event Thread α)

section Steps

variable [Sequence C α]

/-- From one test of the loop guard of `enqueue` to the next, or to the end of the section. -/
def enqueueRound (thread : Thread) (queue : Store width C) (value : α) (copyThrows : Bool) :
    Effect Thread width C α :=
  if queue.queueCurSize = queue.queueMaxSize then
    { shared := queue, position := .enqueueParked value }
  else if copyThrows then
    -- `push_back` has the strong guarantee, and leaving the block releases the lock
    { shared := queue, position := .idle, events := [.returned thread (.enqueueThrew value)] }
  else
    { shared := queue.enqueueBody value
      position := .enqueueNotifying value
      events := [.moved thread (.push value)] }

/-- From one test of the loop guard of `dequeue` to the next, or to the end of the section. -/
def dequeueRound (thread : Thread) (queue : Store width C) (copyThrows : Bool) :
    Effect Thread width C α :=
  if queue.queueCurSize = 0 then
    { shared := queue, position := .dequeueParked }
  else
    match queue.dequeueBody copyThrows with
    | .undefined => { shared := queue, position := .crashed }
    | .threw => { shared := queue, position := .idle, events := [.returned thread .dequeueThrew] }
    | .done value after =>
        { shared := after
          position := .dequeueNotifying value
          events := [.moved thread (.pop value)] }

/-- One atomic step of a thread. -/
def act (thread : Thread) (queue : Store width C) (position : Position α) :
    Action α → Option (Effect Thread width C α)
  | .enqueue value copyThrows =>
      match position with
      | .idle => some (enqueueRound thread queue value copyThrows)
      | _ => none
  | .dequeue copyThrows =>
      match position with
      | .idle => some (dequeueRound thread queue copyThrows)
      | _ => none
  | .endWait bret =>
      match position with
      | .enqueueParked value => some { shared := queue, position := .enqueueWoken value bret }
      | .dequeueParked => some { shared := queue, position := .dequeueWoken bret }
      | _ => none
  | .resume copyThrows =>
      match position with
      | .enqueueWoken value true => some (enqueueRound thread queue value copyThrows)
      | .enqueueWoken value false =>
          some
            { shared := queue
              position := .idle
              events := [.returned thread (.enqueue value (-1))] }
      | .dequeueWoken true => some (dequeueRound thread queue copyThrows)
      | .dequeueWoken false =>
          some
            { shared := queue
              position := .idle
              events := [.returned thread (.dequeue (-1) none)] }
      | _ => none
  | .notify =>
      match position with
      | .enqueueNotifying value =>
          some
            { shared := queue
              position := .idle
              events := [.returned thread (.enqueue value 0)]
              others := notifyDequeue }
      | .dequeueNotifying value =>
          some
            { shared := queue
              position := .idle
              events := [.returned thread (.dequeue 0 (some value))]
              others := notifyEnqueue }
      | _ => none
  | .clear =>
      match position with
      | .idle =>
          some
            { shared := queue.clear
              position := .idle
              events := [.moved thread (.clear queue.contents), .returned thread .clear] }
      | _ => none
  | .size =>
      match position with
      | .idle =>
          some
            { shared := queue
              position := .idle
              events := [.returned thread (.size queue.size.toNat)] }
      | _ => none
  | .empty =>
      match position with
      | .idle =>
          some
            { shared := queue
              position := .idle
              events := [.returned thread (.empty queue.empty)] }
      | _ => none
  | .full =>
      match position with
      | .idle =>
          some
            { shared := queue
              position := .idle
              events := [.returned thread (.full queue.full)] }
      | _ => none

/-- Every interleaving of the threads is a schedule of this system. -/
def step [DecidableEq Thread] :
    System Thread width C α → Thread × Action α → Option (System Thread width C α) :=
  Threads.step fun thread queue position => act thread queue (position thread)

/-- A freshly constructed queue that no thread is using. -/
def initial (queueMaxSize : SizeT width) : System Thread width C α where
  shared := Store.construct queueMaxSize Sequence.empty
  position _ := .idle
  history := []

end Steps

section Inversion

variable [Sequence C α]

/-- The positions from which a thread tests the loop guard of `enqueue(value)`. -/
def StartsEnqueue (position : Position α) (value : α) : Prop :=
  position = .idle ∨ position = .enqueueWoken value true

/-- The positions from which a thread tests the loop guard of `dequeue`. -/
def StartsDequeue (position : Position α) : Prop :=
  position = .idle ∨ position = .dequeueWoken true

/-- Everything one step of a thread at `position` can do to `queue`. -/
inductive Does (thread : Thread) (queue : Store width C) (position : Position α) :
    Action α → Effect Thread width C α → Prop
  | enqueuePark {action : Action α} (value : α) (starts : StartsEnqueue position value)
      (isFull : queue.queueCurSize = queue.queueMaxSize) :
      Does thread queue position action { shared := queue, position := .enqueueParked value }
  | enqueueThrow {action : Action α} (value : α) (starts : StartsEnqueue position value) :
      Does thread queue position action
        { shared := queue, position := .idle, events := [.returned thread (.enqueueThrew value)] }
  | enqueuePush {action : Action α} (value : α) (starts : StartsEnqueue position value)
      (notFull : queue.queueCurSize ≠ queue.queueMaxSize) :
      Does thread queue position action
        { shared := queue.enqueueBody value
          position := .enqueueNotifying value
          events := [.moved thread (.push value)] }
  | dequeuePark {action : Action α} (starts : StartsDequeue position)
      (isEmpty : queue.queueCurSize = 0) :
      Does thread queue position action { shared := queue, position := .dequeueParked }
  | dequeueCrash {action : Action α} (starts : StartsDequeue position)
      (notEmpty : queue.queueCurSize ≠ 0) (nothing : queue.contents = ([] : List α)) :
      Does thread queue position action { shared := queue, position := .crashed }
  | dequeueThrow {action : Action α} (starts : StartsDequeue position) :
      Does thread queue position action
        { shared := queue, position := .idle, events := [.returned thread .dequeueThrew] }
  | dequeuePop {action : Action α} (value : α) (after : Store width C)
      (starts : StartsDequeue position) (notEmpty : queue.queueCurSize ≠ 0)
      (done : queue.dequeueBody false = .done value after) :
      Does thread queue position action
        { shared := after
          position := .dequeueNotifying value
          events := [.moved thread (.pop value)] }
  | wakeEnqueue {action : Action α} (value : α) (bret : Bool)
      (parked : position = .enqueueParked value) :
      Does thread queue position action { shared := queue, position := .enqueueWoken value bret }
  | wakeDequeue {action : Action α} (bret : Bool) (parked : position = .dequeueParked) :
      Does thread queue position action { shared := queue, position := .dequeueWoken bret }
  | enqueueTimeout {action : Action α} (value : α)
      (expired : position = .enqueueWoken value false) :
      Does thread queue position action
        { shared := queue
          position := .idle
          events := [.returned thread (.enqueue value (-1))] }
  | dequeueTimeout {action : Action α} (expired : position = .dequeueWoken false) :
      Does thread queue position action
        { shared := queue
          position := .idle
          events := [.returned thread (.dequeue (-1) none)] }
  | enqueueNotify {action : Action α} (value : α) (owes : position = .enqueueNotifying value) :
      Does thread queue position action
        { shared := queue
          position := .idle
          events := [.returned thread (.enqueue value 0)]
          others := notifyDequeue }
  | dequeueNotify {action : Action α} (value : α) (owes : position = .dequeueNotifying value) :
      Does thread queue position action
        { shared := queue
          position := .idle
          events := [.returned thread (.dequeue 0 (some value))]
          others := notifyEnqueue }
  | clear (idle : position = .idle) :
      Does thread queue position .clear
        { shared := queue.clear
          position := .idle
          events := [.moved thread (.clear queue.contents), .returned thread .clear] }
  | query {action : Action α} (answer : Answer α) (idle : position = .idle)
      (reads : answer = .size queue.size.toNat ∨ answer = .empty queue.empty ∨
        answer = .full queue.full) :
      Does thread queue position action
        { shared := queue, position := .idle, events := [.returned thread answer] }

theorem does_enqueueRound {thread : Thread} {queue : Store width C} {position : Position α}
    {action : Action α} {value : α} (starts : StartsEnqueue position value) (copyThrows : Bool) :
    Does thread queue position action (enqueueRound thread queue value copyThrows) := by
  unfold enqueueRound
  split
  case isTrue isFull => exact .enqueuePark value starts isFull
  case isFalse notFull =>
    split
    · exact .enqueueThrow value starts
    · exact .enqueuePush value starts notFull

theorem does_dequeueRound {thread : Thread} {queue : Store width C} {position : Position α}
    {action : Action α} (starts : StartsDequeue position) (copyThrows : Bool) :
    Does thread queue position action (dequeueRound thread queue copyThrows) := by
  unfold dequeueRound
  split
  case isTrue isEmpty => exact .dequeuePark starts isEmpty
  case isFalse notEmpty =>
    split
    case h_1 undefined =>
      exact .dequeueCrash starts notEmpty (Store.dequeueBody_eq_undefined.mp undefined)
    case h_2 => exact .dequeueThrow starts
    case h_3 value after done =>
      obtain rfl := Store.not_copyThrows_of_done done
      exact .dequeuePop value after starts notEmpty done

/-- One step does one of the things `Does` lists. -/
theorem does_of_act {thread : Thread} {queue : Store width C} {position : Position α}
    {action : Action α} {effect : Effect Thread width C α}
    (enabled : act thread queue position action = some effect) :
    Does thread queue position action effect := by
  cases action with
  | enqueue value copyThrows =>
      simp only [act] at enabled
      split at enabled <;> cases enabled
      case h_1.refl => exact does_enqueueRound (.inl rfl) copyThrows
  | dequeue copyThrows =>
      simp only [act] at enabled
      split at enabled <;> cases enabled
      case h_1.refl => exact does_dequeueRound (.inl rfl) copyThrows
  | endWait bret =>
      simp only [act] at enabled
      split at enabled <;> cases enabled
      case h_1.refl value => exact .wakeEnqueue value bret rfl
      case h_2.refl => exact .wakeDequeue bret rfl
  | resume copyThrows =>
      simp only [act] at enabled
      split at enabled <;> cases enabled
      case h_1.refl value => exact does_enqueueRound (.inr rfl) copyThrows
      case h_2.refl value => exact .enqueueTimeout value rfl
      case h_3.refl => exact does_dequeueRound (.inr rfl) copyThrows
      case h_4.refl => exact .dequeueTimeout rfl
  | notify =>
      simp only [act] at enabled
      split at enabled <;> cases enabled
      case h_1.refl value => exact .enqueueNotify value rfl
      case h_2.refl value => exact .dequeueNotify value rfl
  | clear =>
      simp only [act] at enabled
      split at enabled <;> cases enabled
      case h_1.refl => exact .clear rfl
  | size =>
      simp only [act] at enabled
      split at enabled <;> cases enabled
      case h_1.refl => exact .query _ rfl (.inl rfl)
  | empty =>
      simp only [act] at enabled
      split at enabled <;> cases enabled
      case h_1.refl => exact .query _ rfl (.inr (.inl rfl))
  | full =>
      simp only [act] at enabled
      split at enabled <;> cases enabled
      case h_1.refl => exact .query _ rfl (.inr (.inr rfl))

end Inversion
end ZenMessageQueueCondi
end BoostTest
