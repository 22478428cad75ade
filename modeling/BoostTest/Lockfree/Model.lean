import BoostTest.Lib.Execution
import BoostTest.Lib.Tally

/-!
# The lock-free queue test

`test_lockfree` with any number of producer threads, consumer threads and iterations.  The queue is
taken as a linearizable FIFO list: a `push` may fail and then changes nothing, a `pop` fails only on
an empty queue.  Each step of a thread is one access to shared data.
-/

namespace BoostTest
namespace Lockfree

open Function

/-- Where a thread running `producer` is. -/
inductive ProducerPosition where
  /-- At the loop test with loop variable `i`. -/
  | looping (i : Nat)
  /-- In round `i`, pushing `value`. -/
  | pushing (i : Nat) (value : Int)
  | returned
  deriving DecidableEq, Repr

/-- Where a thread running `consumer` is.  The two loops over `pop` have the same text; `last` tells
the one after `done` from the one before. -/
inductive ConsumerPosition where
  /-- At the test of `done`. -/
  | testing
  /-- At the `pop` of an inner loop. -/
  | draining (last : Bool)
  /-- A value is popped, `++consumer_count` is to come. -/
  | counting (last : Bool)
  | returned
  deriving DecidableEq, Repr

/-- Where `test_lockfree` is. -/
inductive MainPosition where
  | creatingProducers (i : Nat)
  | creatingConsumers (i : Nat)
  /-- In `producer_threads.join_all()`, with the first `i` threads joined. -/
  | joiningProducers (i : Nat)
  /-- In `consumer_threads.join_all()`, with the first `i` threads joined. -/
  | joiningConsumers (i : Nat)
  | returned
  deriving DecidableEq, Repr

/-- The shared data and the positions of all threads. -/
structure State (producerThreadCount consumerThreadCount : Nat) where
  producerCount : Int
  consumerCount : Int
  queue : List Int
  done : Bool
  main : MainPosition
  producers : Fin producerThreadCount → ProducerPosition
  consumers : Fin consumerThreadCount → ConsumerPosition
  /-- The values popped so far. -/
  popped : List Int

/-- A scheduling choice: the thread that steps and, for a `push`, whether it succeeds. -/
inductive Choice (producerThreadCount consumerThreadCount : Nat) where
  | main
  | producer (thread : Fin producerThreadCount) (pushed : Bool)
  | consumer (thread : Fin consumerThreadCount)
  deriving DecidableEq, Repr

/-- `++` on an `atomic_int`. -/
def increment (count : Int) : Int := (count + 1).bmod (2 ^ 32)

/-- Whether the thread that runs `producer` for the `i`-th time exists. -/
def MainPosition.hasProducer (main : MainPosition) (i : Nat) : Bool :=
  match main with
  | creatingProducers created => i < created
  | _ => true

/-- Whether the thread that runs `consumer` for the `i`-th time exists. -/
def MainPosition.hasConsumer (main : MainPosition) (i : Nat) : Bool :=
  match main with
  | creatingProducers _ => false
  | creatingConsumers created => i < created
  | _ => true

variable {producerThreadCount consumerThreadCount : Nat}

/-- A step of `producer`. -/
def producer (iterations : Nat) (state : State producerThreadCount consumerThreadCount)
    (thread : Fin producerThreadCount) (pushed : Bool) :
    Option (State producerThreadCount consumerThreadCount) :=
  match state.producers thread with
  | .looping i =>
      if i = iterations then
        some { state with producers := update state.producers thread .returned }
      else
        let value := increment state.producerCount
        some
          { state with
            producerCount := value
            producers := update state.producers thread (.pushing i value) }
  | .pushing i value =>
      if pushed then
        some
          { state with
            queue := state.queue ++ [value]
            producers := update state.producers thread (.looping (i + 1)) }
      else some state
  | .returned => none

/-- A step of `consumer`. -/
def consumer (state : State producerThreadCount consumerThreadCount)
    (thread : Fin consumerThreadCount) :
    Option (State producerThreadCount consumerThreadCount) :=
  match state.consumers thread with
  | .testing =>
      some { state with consumers := update state.consumers thread (.draining state.done) }
  | .draining last =>
      match state.queue with
      | [] =>
          some
            { state with
              consumers := update state.consumers thread (if last then .returned else .testing) }
      | value :: rest =>
          some
            { state with
              queue := rest
              popped := state.popped ++ [value]
              consumers := update state.consumers thread (.counting last) }
  | .counting last =>
      some
        { state with
          consumerCount := increment state.consumerCount
          consumers := update state.consumers thread (.draining last) }
  | .returned => none

/-- A step of `test_lockfree`. -/
def testLockfree (state : State producerThreadCount consumerThreadCount) :
    Option (State producerThreadCount consumerThreadCount) :=
  match state.main with
  | .creatingProducers i =>
      if i = producerThreadCount then some { state with main := .creatingConsumers 0 }
      else some { state with main := .creatingProducers (i + 1) }
  | .creatingConsumers i =>
      if i = consumerThreadCount then some { state with main := .joiningProducers 0 }
      else some { state with main := .creatingConsumers (i + 1) }
  | .joiningProducers i =>
      if within : i < producerThreadCount then
        if state.producers ⟨i, within⟩ = .returned then
          some { state with main := .joiningProducers (i + 1) }
        else none
      else some { state with done := true, main := .joiningConsumers 0 }
  | .joiningConsumers i =>
      if within : i < consumerThreadCount then
        if state.consumers ⟨i, within⟩ = .returned then
          some { state with main := .joiningConsumers (i + 1) }
        else none
      else some { state with main := .returned }
  | .returned => none

/-- Every interleaving of the threads is a schedule of this system. -/
def step (iterations : Nat) (state : State producerThreadCount consumerThreadCount) :
    Choice producerThreadCount consumerThreadCount →
      Option (State producerThreadCount consumerThreadCount)
  | .main => testLockfree state
  | .producer thread pushed =>
      if state.main.hasProducer thread then producer iterations state thread pushed else none
  | .consumer thread => if state.main.hasConsumer thread then consumer state thread else none

/-- The start of `test_lockfree`. -/
def initial : State producerThreadCount consumerThreadCount where
  producerCount := 0
  consumerCount := 0
  queue := []
  done := false
  main := .creatingProducers 0
  producers _ := .looping 0
  consumers _ := .testing
  popped := []

/-- Everything one step can do. -/
inductive Does (iterations : Nat) (state : State producerThreadCount consumerThreadCount) :
    State producerThreadCount consumerThreadCount → Prop
  | produce (thread : Fin producerThreadCount) (i : Nat)
      (looping : state.producers thread = .looping i) (more : i ≠ iterations) :
      Does iterations state
        { state with
          producerCount := increment state.producerCount
          producers :=
            update state.producers thread (.pushing i (increment state.producerCount)) }
  | finishProducing (thread : Fin producerThreadCount)
      (looping : state.producers thread = .looping iterations) :
      Does iterations state
        { state with producers := update state.producers thread .returned }
  | push (thread : Fin producerThreadCount) (i : Nat) (value : Int)
      (pushing : state.producers thread = .pushing i value) :
      Does iterations state
        { state with
          queue := state.queue ++ [value]
          producers := update state.producers thread (.looping (i + 1)) }
  | retry : Does iterations state state
  | test (thread : Fin consumerThreadCount) (testing : state.consumers thread = .testing) :
      Does iterations state
        { state with consumers := update state.consumers thread (.draining state.done) }
  | pop (thread : Fin consumerThreadCount) (last : Bool) (value : Int) (rest : List Int)
      (draining : state.consumers thread = .draining last)
      (nonempty : state.queue = value :: rest) :
      Does iterations state
        { state with
          queue := rest
          popped := state.popped ++ [value]
          consumers := update state.consumers thread (.counting last) }
  | leave (thread : Fin consumerThreadCount) (last : Bool)
      (draining : state.consumers thread = .draining last) (nothing : state.queue = []) :
      Does iterations state
        { state with
          consumers := update state.consumers thread (if last then .returned else .testing) }
  | count (thread : Fin consumerThreadCount) (last : Bool)
      (counting : state.consumers thread = .counting last) :
      Does iterations state
        { state with
          consumerCount := increment state.consumerCount
          consumers := update state.consumers thread (.draining last) }
  | advance (main : MainPosition)
      (joined : ∀ i, main = .joiningProducers (i + 1) → state.main = .joiningProducers i ∧
        ∃ within : i < producerThreadCount, state.producers ⟨i, within⟩ = .returned) :
      Does iterations state { state with main }
  | store (i : Nat) (joining : state.main = .joiningProducers i) (all : producerThreadCount ≤ i) :
      Does iterations state { state with done := true, main := .joiningConsumers 0 }

theorem does_of_producer {iterations : Nat}
    {before after : State producerThreadCount consumerThreadCount}
    {thread : Fin producerThreadCount} {pushed : Bool}
    (taken : producer iterations before thread pushed = some after) :
    Does iterations before after := by
  unfold producer at taken
  split at taken
  case h_1 i looping =>
    split at taken <;> cases taken
    case isTrue.refl last => exact .finishProducing thread (last ▸ looping)
    case isFalse.refl more => exact .produce thread i looping more
  case h_2 i value pushing =>
    split at taken <;> cases taken
    case isTrue.refl => exact .push thread i value pushing
    case isFalse.refl => exact .retry
  case h_3 => cases taken

theorem does_of_consumer {iterations : Nat}
    {before after : State producerThreadCount consumerThreadCount}
    {thread : Fin consumerThreadCount} (taken : consumer before thread = some after) :
    Does iterations before after := by
  unfold consumer at taken
  split at taken
  case h_1 testing => cases taken; exact .test thread testing
  case h_2 last draining =>
    split at taken <;> cases taken
    case h_1.refl nothing => exact .leave thread last draining nothing
    case h_2.refl value rest nonempty => exact .pop thread last value rest draining nonempty
  case h_3 last counting => cases taken; exact .count thread last counting
  case h_4 => cases taken

theorem does_of_testLockfree {iterations : Nat}
    {before after : State producerThreadCount consumerThreadCount}
    (taken : testLockfree before = some after) : Does iterations before after := by
  unfold testLockfree at taken
  split at taken
  case h_1 | h_2 => split at taken <;> cases taken <;> exact .advance _ nofun
  case h_3 i joining =>
    split at taken
    case isTrue within =>
      split at taken <;> cases taken
      case isTrue.refl returned =>
        refine .advance _ fun j same => ?_
        cases same
        exact ⟨joining, within, returned⟩
    case isFalse all => cases taken; exact .store i joining (Nat.le_of_not_lt all)
  case h_4 =>
    split at taken
    · split at taken <;> cases taken
      exact .advance _ nofun
    · cases taken
      exact .advance _ nofun
  case h_5 => cases taken

/-- One step does one of the things `Does` lists. -/
theorem does_of_step {iterations : Nat}
    {before after : State producerThreadCount consumerThreadCount}
    {choice : Choice producerThreadCount consumerThreadCount}
    (taken : step iterations before choice = some after) : Does iterations before after := by
  cases choice with
  | main => exact does_of_testLockfree taken
  | producer thread pushed =>
      simp only [step] at taken
      split at taken
      · exact does_of_producer taken
      · cases taken
  | consumer thread =>
      simp only [step] at taken
      split at taken
      · exact does_of_consumer taken
      · cases taken

end Lockfree
end BoostTest
