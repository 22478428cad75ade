import BoostTest.Lib.Threads
import BoostTest.Queue.History
import BoostTest.Queue.Store

/-!
# The semaphore queue

`zen_message_queue_sem` under any number of threads.  A call goes through three atomic steps: the
`timed_wait` on a semaphore, which takes one token or reports false and takes none, the critical
section under `queue_lock_`, and the `post` of the other semaphore.  Other threads may run between
any two of them.  The semaphores are unbounded counters.
-/

namespace BoostTest
namespace ZenMessageQueueSem

/-- The data members of the queue. -/
structure Queue (width : Nat) (C : Type*) where
  store : Store width C
  /-- The tokens of `sem_full_`, one for each free slot. -/
  semFull : Nat
  /-- The tokens of `sem_empty_`, one for each message. -/
  semEmpty : Nat
  deriving DecidableEq, Repr

/-- Where a thread is with respect to the queue. -/
inductive Position (α : Type*) where
  | idle
  /-- Holds a token of `sem_full_`, not yet in the critical section. -/
  | enqueueHolding (value : α)
  /-- Past the critical section, `sem_empty_.post()` not yet done. -/
  | enqueuePosting (value : α)
  /-- Holds a token of `sem_empty_`, not yet in the critical section. -/
  | dequeueHolding
  /-- Past the critical section, `sem_full_.post()` not yet done. -/
  | dequeuePosting (value : α)
  /-- The thread has read or popped an empty container. -/
  | crashed
  deriving DecidableEq, Repr

/-- What the scheduler lets a thread do. -/
inductive Action (α : Type*) where
  /-- Call `enqueue(value)`; `bret` is the result of `sem_full_.timed_wait`. -/
  | enqueue (value : α) (bret : Bool)
  /-- Call `dequeue`; `bret` is the result of `sem_empty_.timed_wait`. -/
  | dequeue (bret : Bool)
  /-- Run the critical section. -/
  | enter (copyThrows : Bool)
  /-- Post the other semaphore and return 0. -/
  | post
  | clear
  | size
  | empty
  | full
  deriving DecidableEq, Repr

variable {Thread C α : Type*} {width : Nat}

/-- The effect of one step of a thread using the queue. -/
abbrev Effect (Thread : Type*) (width : Nat) (C α : Type*) :=
  Threads.Effect (Queue width C) (Position α) (Event Thread α)

/-- A queue together with the threads using it. -/
abbrev System (Thread : Type*) (width : Nat) (C α : Type*) :=
  Threads.System Thread (Queue width C) (Position α) (Event Thread α)

/-- The constructor. -/
def construct (queueMaxSize : SizeT width) (messageQueue : C) : Queue width C where
  store := Store.construct queueMaxSize messageQueue
  semFull := queueMaxSize.toNat
  semEmpty := 0

/-- The tokens left after a `timed_wait` with result `bret`, if it can have that result. -/
def timedWait (tokens : Nat) (bret : Bool) : Option Nat :=
  if bret then
    match tokens with
    | 0 => none
    | left + 1 => some left
  else some tokens

section Steps

variable [Sequence C α]

/-- One atomic step of a thread. -/
def act (thread : Thread) (queue : Queue width C) (position : Position α) :
    Action α → Option (Effect Thread width C α)
  | .enqueue value bret =>
      match position, timedWait queue.semFull bret with
      | .idle, some left =>
          if bret then
            some { shared := { queue with semFull := left }, position := .enqueueHolding value }
          else
            some
              { shared := { queue with semFull := left }
                position := .idle
                events := [.returned thread (.enqueue value (-1))] }
      | _, _ => none
  | .dequeue bret =>
      match position, timedWait queue.semEmpty bret with
      | .idle, some left =>
          if bret then
            some { shared := { queue with semEmpty := left }, position := .dequeueHolding }
          else
            some
              { shared := { queue with semEmpty := left }
                position := .idle
                events := [.returned thread (.dequeue (-1) none)] }
      | _, _ => none
  | .enter copyThrows =>
      match position with
      | .enqueueHolding value =>
          -- an exception releases the lock but gives no token back
          if copyThrows then
            some
              { shared := queue
                position := .idle
                events := [.returned thread (.enqueueThrew value)] }
          else
            some
              { shared := { queue with store := queue.store.enqueueBody value }
                position := .enqueuePosting value
                events := [.moved thread (.push value)] }
      | .dequeueHolding =>
          match queue.store.dequeueBody copyThrows with
          | .undefined => some { shared := queue, position := .crashed }
          | .threw =>
              some
                { shared := queue, position := .idle, events := [.returned thread .dequeueThrew] }
          | .done value after =>
              some
                { shared := { queue with store := after }
                  position := .dequeuePosting value
                  events := [.moved thread (.pop value)] }
      | _ => none
  | .post =>
      match position with
      | .enqueuePosting value =>
          some
            { shared := { queue with semEmpty := queue.semEmpty + 1 }
              position := .idle
              events := [.returned thread (.enqueue value 0)] }
      | .dequeuePosting value =>
          some
            { shared := { queue with semFull := queue.semFull + 1 }
              position := .idle
              events := [.returned thread (.dequeue 0 (some value))] }
      | _ => none
  | .clear =>
      match position with
      | .idle =>
          some
            { shared := { queue with store := queue.store.clear }
              position := .idle
              events := [.moved thread (.clear queue.store.contents), .returned thread .clear] }
      | _ => none
  | .size =>
      match position with
      | .idle =>
          some
            { shared := queue
              position := .idle
              events := [.returned thread (.size queue.store.size.toNat)] }
      | _ => none
  | .empty =>
      match position with
      | .idle =>
          some
            { shared := queue
              position := .idle
              events := [.returned thread (.empty queue.store.empty)] }
      | _ => none
  | .full =>
      match position with
      | .idle =>
          some
            { shared := queue
              position := .idle
              events := [.returned thread (.full queue.store.full)] }
      | _ => none

/-- Every interleaving of the threads is a schedule of this system. -/
def step [DecidableEq Thread] :
    System Thread width C α → Thread × Action α → Option (System Thread width C α) :=
  Threads.step fun thread queue position => act thread queue (position thread)

/-- A freshly constructed queue that no thread is using. -/
def initial (queueMaxSize : SizeT width) : System Thread width C α where
  shared := construct queueMaxSize Sequence.empty
  position _ := .idle
  history := []

end Steps

section Inversion

variable [Sequence C α]

/-- Everything one step of a thread at `position` can do to `queue`. -/
inductive Does (thread : Thread) (queue : Queue width C) :
    Position α → Action α → Effect Thread width C α → Prop
  | enqueueTake (value : α) (left : Nat) (token : queue.semFull = left + 1) :
      Does thread queue .idle (.enqueue value true)
        { shared := { queue with semFull := left }, position := .enqueueHolding value }
  | enqueueRefused (value : α) :
      Does thread queue .idle (.enqueue value false)
        { shared := queue, position := .idle, events := [.returned thread (.enqueue value (-1))] }
  | enqueuePush (value : α) :
      Does thread queue (.enqueueHolding value) (.enter false)
        { shared := { queue with store := queue.store.enqueueBody value }
          position := .enqueuePosting value
          events := [.moved thread (.push value)] }
  | enqueueThrow (value : α) :
      Does thread queue (.enqueueHolding value) (.enter true)
        { shared := queue, position := .idle, events := [.returned thread (.enqueueThrew value)] }
  | enqueuePost (value : α) :
      Does thread queue (.enqueuePosting value) .post
        { shared := { queue with semEmpty := queue.semEmpty + 1 }
          position := .idle
          events := [.returned thread (.enqueue value 0)] }
  | dequeueTake (left : Nat) (token : queue.semEmpty = left + 1) :
      Does thread queue .idle (.dequeue true)
        { shared := { queue with semEmpty := left }, position := .dequeueHolding }
  | dequeueRefused :
      Does thread queue .idle (.dequeue false)
        { shared := queue, position := .idle, events := [.returned thread (.dequeue (-1) none)] }
  | dequeuePop (value : α) (after : Store width C)
      (done : queue.store.dequeueBody false = .done value after) :
      Does thread queue .dequeueHolding (.enter false)
        { shared := { queue with store := after }
          position := .dequeuePosting value
          events := [.moved thread (.pop value)] }
  | dequeueThrow :
      Does thread queue .dequeueHolding (.enter true)
        { shared := queue, position := .idle, events := [.returned thread .dequeueThrew] }
  | dequeueCrash (copyThrows : Bool) (nothing : queue.store.contents = ([] : List α)) :
      Does thread queue .dequeueHolding (.enter copyThrows)
        { shared := queue, position := .crashed }
  | dequeuePost (value : α) :
      Does thread queue (.dequeuePosting value) .post
        { shared := { queue with semFull := queue.semFull + 1 }
          position := .idle
          events := [.returned thread (.dequeue 0 (some value))] }
  | clear :
      Does thread queue .idle .clear
        { shared := { queue with store := queue.store.clear }
          position := .idle
          events := [.moved thread (.clear queue.store.contents), .returned thread .clear] }
  | query {action : Action α} (answer : Answer α)
      (reads : action = .size ∧ answer = .size queue.store.size.toNat ∨
        action = .empty ∧ answer = .empty queue.store.empty ∨
          action = .full ∧ answer = .full queue.store.full) :
      Does thread queue .idle action
        { shared := queue, position := .idle, events := [.returned thread answer] }

@[simp]
theorem timedWait_false (tokens : Nat) : timedWait tokens false = some tokens := rfl

theorem timedWait_true {tokens left : Nat} :
    timedWait tokens true = some left ↔ tokens = left + 1 := by
  cases tokens <;> simp [timedWait]

/-- One step does one of the things `Does` lists. -/
theorem does_of_act {thread : Thread} {queue : Queue width C} {position : Position α}
    {action : Action α} {effect : Effect Thread width C α}
    (enabled : act thread queue position action = some effect) :
    Does thread queue position action effect := by
  cases action with
  | enqueue value bret =>
      simp only [act] at enabled
      split at enabled
      case h_1 left waited =>
        cases bret with
        | true =>
            cases enabled
            exact .enqueueTake value left (timedWait_true.mp waited)
        | false =>
            cases waited
            cases enabled
            exact .enqueueRefused value
      case h_2 => cases enabled
  | dequeue bret =>
      simp only [act] at enabled
      split at enabled
      case h_1 left waited =>
        cases bret with
        | true =>
            cases enabled
            exact .dequeueTake left (timedWait_true.mp waited)
        | false =>
            cases waited
            cases enabled
            exact .dequeueRefused
      case h_2 => cases enabled
  | enter copyThrows =>
      simp only [act] at enabled
      split at enabled
      case h_1 value =>
        cases copyThrows with
        | true =>
            cases enabled
            exact .enqueueThrow value
        | false =>
            cases enabled
            exact .enqueuePush value
      case h_2 =>
        split at enabled <;> cases enabled
        case h_1.refl undefined =>
          exact .dequeueCrash copyThrows (Store.dequeueBody_eq_undefined.mp undefined)
        case h_2.refl threw =>
          obtain rfl := Store.copyThrows_of_threw threw
          exact .dequeueThrow
        case h_3.refl value after done =>
          obtain rfl := Store.not_copyThrows_of_done done
          exact .dequeuePop value after done
      case h_3 => cases enabled
  | post =>
      simp only [act] at enabled
      split at enabled <;> cases enabled
      case h_1.refl value => exact .enqueuePost value
      case h_2.refl value => exact .dequeuePost value
  | clear =>
      simp only [act] at enabled
      split at enabled <;> cases enabled
      case h_1.refl => exact .clear
  | size =>
      simp only [act] at enabled
      split at enabled <;> cases enabled
      case h_1.refl => exact .query _ (.inl ⟨rfl, rfl⟩)
  | empty =>
      simp only [act] at enabled
      split at enabled <;> cases enabled
      case h_1.refl => exact .query _ (.inr (.inl ⟨rfl, rfl⟩))
  | full =>
      simp only [act] at enabled
      split at enabled <;> cases enabled
      case h_1.refl => exact .query _ (.inr (.inr ⟨rfl, rfl⟩))

end Inversion
end ZenMessageQueueSem
end BoostTest
