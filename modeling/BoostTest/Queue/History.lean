import BoostTest.Lib.Fifo

/-!
# Histories of a message queue

What a run of a message queue shows from the outside: the completed `push_back` and `pop_front`
operations and `clear` calls, in the order of their critical sections, as operations of the abstract
queue, and the calls that have ended, with their results.
-/

namespace BoostTest

/-- The result of a call that has ended. -/
inductive Answer (α : Type*) where
  /-- `enqueue(value)` returned `code`. -/
  | enqueue (value : α) (code : Int)
  /-- `dequeue` returned `code`, having assigned `value_data` or left it alone. -/
  | dequeue (code : Int) (value : Option α)
  /-- An exception left `enqueue(value)`. -/
  | enqueueThrew (value : α)
  /-- An exception left `dequeue`. -/
  | dequeueThrew
  | clear
  | size (value : Nat)
  | empty (value : Bool)
  | full (value : Bool)
  deriving DecidableEq, Repr

/-- The values `pop_front` has removed. -/
@[simp]
def Fifo.Op.popped {α : Type*} : Fifo.Op α → List α
  | .pop value => [value]
  | _ => []

/-- The values `clear` has thrown away. -/
@[simp]
def Fifo.Op.discarded {α : Type*} : Fifo.Op α → List α
  | .clear values => values
  | _ => []

namespace Answer

variable {α : Type*}

/-- The value of an `enqueue` that returned 0. -/
@[simp]
def accepted : Answer α → List α
  | enqueue value 0 => [value]
  | _ => []

/-- The value of a `dequeue` that returned 0. -/
@[simp]
def received : Answer α → List α
  | dequeue 0 (some value) => [value]
  | _ => []

/-- Whether the call is an `enqueue` or a `dequeue` that returned 0. -/
def succeeded : Answer α → Bool
  | enqueue _ 0 => true
  | dequeue 0 _ => true
  | _ => false

/-- Whether an exception has left the call of `enqueue`. -/
def isFailedEnqueue : Answer α → Bool
  | enqueueThrew _ => true
  | _ => false

/-- Whether an exception has left the call of `dequeue`. -/
def isFailedDequeue : Answer α → Bool
  | dequeueThrew => true
  | _ => false

end Answer

/-- What is recorded of a run. -/
inductive Event (Thread α : Type*) where
  /-- The container was changed by a critical section of `thread`. -/
  | moved (thread : Thread) (op : Fifo.Op α)
  /-- A call of `thread` ended. -/
  | returned (thread : Thread) (answer : Answer α)
  deriving DecidableEq, Repr

namespace Event

variable {Thread α : Type*}

/-- The thread an event belongs to. -/
def thread : Event Thread α → Thread
  | moved thread _ => thread
  | returned thread _ => thread

/-- The operations on the container, in the order of the critical sections. -/
def ops : List (Event Thread α) → List (Fifo.Op α) :=
  List.filterMap fun
    | moved _ op => some op
    | returned _ _ => none

/-- The results of the calls that have ended. -/
def answers : List (Event Thread α) → List (Answer α) :=
  List.filterMap fun
    | moved _ _ => none
    | returned _ answer => some answer

/-- The events of one thread. -/
def ofThread [DecidableEq Thread] (thread : Thread) (history : List (Event Thread α)) :
    List (Event Thread α) :=
  history.filter fun event => event.thread = thread

/-- What the operations on the container have moved, as told by `values`. -/
def movedValues (values : Fifo.Op α → List α) (history : List (Event Thread α)) : List α :=
  (ops history).flatMap values

/-- What the calls that have ended have returned, as told by `values`. -/
def returnedValues (values : Answer α → List α) (history : List (Event Thread α)) : List α :=
  (answers history).flatMap values

/-- The values whose `push_back` completed. -/
abbrev pushes (history : List (Event Thread α)) : List α := movedValues Fifo.Op.inserted history

/-- The values removed, by a `pop_front` or by a `clear`. -/
abbrev removals (history : List (Event Thread α)) : List α := movedValues Fifo.Op.removed history

/-- The values removed by a `pop_front`. -/
abbrev pops (history : List (Event Thread α)) : List α := movedValues Fifo.Op.popped history

/-- The values `clear` calls have thrown away. -/
abbrev discards (history : List (Event Thread α)) : List α :=
  movedValues Fifo.Op.discarded history

/-- The values of the `enqueue` calls that returned 0. -/
abbrev accepted (history : List (Event Thread α)) : List α :=
  returnedValues Answer.accepted history

/-- The values of the `dequeue` calls that returned 0. -/
abbrev received (history : List (Event Thread α)) : List α :=
  returnedValues Answer.received history

@[simp]
theorem ops_append (front back : List (Event Thread α)) :
    ops (front ++ back) = ops front ++ ops back :=
  List.filterMap_append

@[simp]
theorem answers_append (front back : List (Event Thread α)) :
    answers (front ++ back) = answers front ++ answers back :=
  List.filterMap_append

section Values

variable (values : Fifo.Op α → List α) (results : Answer α → List α) (thread : Thread)

@[simp]
theorem movedValues_append (front back : List (Event Thread α)) :
    movedValues values (front ++ back) = movedValues values front ++ movedValues values back := by
  simp [movedValues]

@[simp]
theorem movedValues_nil : movedValues values ([] : List (Event Thread α)) = [] := rfl

@[simp]
theorem movedValues_moved (op : Fifo.Op α) (history : List (Event Thread α)) :
    movedValues values (.moved thread op :: history) = values op ++ movedValues values history :=
  rfl

@[simp]
theorem movedValues_returned (answer : Answer α) (history : List (Event Thread α)) :
    movedValues values (.returned thread answer :: history) = movedValues values history := rfl

@[simp]
theorem returnedValues_append (front back : List (Event Thread α)) :
    returnedValues results (front ++ back) =
      returnedValues results front ++ returnedValues results back := by
  simp [returnedValues]

@[simp]
theorem returnedValues_nil : returnedValues results ([] : List (Event Thread α)) = [] := rfl

@[simp]
theorem returnedValues_moved (op : Fifo.Op α) (history : List (Event Thread α)) :
    returnedValues results (.moved thread op :: history) = returnedValues results history := rfl

@[simp]
theorem returnedValues_returned (answer : Answer α) (history : List (Event Thread α)) :
    returnedValues results (.returned thread answer :: history) =
      results answer ++ returnedValues results history := rfl

end Values

@[simp]
theorem answers_nil : answers ([] : List (Event Thread α)) = [] := rfl

@[simp]
theorem answers_moved (thread : Thread) (op : Fifo.Op α) (history : List (Event Thread α)) :
    answers (.moved thread op :: history) = answers history := rfl

@[simp]
theorem answers_returned (thread : Thread) (answer : Answer α) (history : List (Event Thread α)) :
    answers (.returned thread answer :: history) = answer :: answers history := rfl

/-- Events of other threads do not show in a thread's own history. -/
theorem ofThread_append_of_ne [DecidableEq Thread] {thread other : Thread}
    (different : other ≠ thread) {history events : List (Event Thread α)}
    (own : ∀ event ∈ events, event.thread = thread) :
    ofThread other (history ++ events) = ofThread other history := by
  have none : ofThread other events = [] := by
    rw [ofThread, List.filter_eq_nil_iff]
    intro event member
    simpa [own event member] using different.symm
  rw [ofThread, List.filter_append]
  exact (congrArg (ofThread other history ++ ·) none).trans (List.append_nil _)

theorem ofThread_append_self [DecidableEq Thread] {thread : Thread}
    {history events : List (Event Thread α)} (own : ∀ event ∈ events, event.thread = thread) :
    ofThread thread (history ++ events) = ofThread thread history ++ events := by
  have all : ofThread thread events = events := by
    rw [ofThread, List.filter_eq_self]
    intro event member
    simpa using own event member
  rw [ofThread, List.filter_append]
  exact congrArg (ofThread thread history ++ ·) all

/-- A thread's own events match where it is: what it pushed, its `enqueue` calls have reported with
code 0 or are about to; what it popped, its `dequeue` calls have returned or are about to. -/
structure Settled (own : List (Event Thread α)) (unreported undelivered : List α) : Prop where
  pushed : pushes own = accepted own ++ unreported
  popped : pops own = received own ++ undelivered

/-- Where no message was thrown away, what was removed is what was popped. -/
theorem removals_eq_pops {history : List (Event Thread α)} (kept : discards history = []) :
    removals history = pops history := by
  have each : ∀ op ∈ ops history, op.removed = op.popped := by
    intro op member
    have nothing := List.flatMap_eq_nil_iff.mp kept op member
    cases op with
    | push value => rfl
    | pop value => rfl
    | clear values => exact nothing
  exact List.flatMap_congr each

end Event

end BoostTest
