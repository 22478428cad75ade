import BoostTest.Lockfree.Progress

/-!
# The order of the values of the lock-free queue test

The queue is first in first out, and a producer takes its values from a counter that only grows, so
the values of one producer are pushed in increasing order and popped in that order, however the
threads are scheduled.
-/

namespace BoostTest
namespace Lockfree

open Function Execution

variable {producerThreadCount consumerThreadCount iterations : Nat}

/-- The producer and the value of a `push` that succeeds. -/
def pushed (state : State producerThreadCount consumerThreadCount) :
    Choice producerThreadCount consumerThreadCount → List (Fin producerThreadCount × Int)
  | .producer thread true =>
      match state.producers thread with
      | .pushing _ value => [(thread, value)]
      | _ => []
  | _ => []

/-- The values one producer has pushed, in order. -/
def pushedBy (thread : Fin producerThreadCount) (log : List (Fin producerThreadCount × Int)) :
    List Int :=
  (log.filter fun entry => entry.1 = thread).map Prod.snd

/-- The number of rounds a producer has finished. -/
def rounds (iterations : Nat) : ProducerPosition → Nat
  | .looping i => i
  | .pushing i _ => i
  | .returned => iterations

@[simp]
theorem pushedBy_append (thread : Fin producerThreadCount)
    (front back : List (Fin producerThreadCount × Int)) :
    pushedBy thread (front ++ back) = pushedBy thread front ++ pushedBy thread back := by
  simp [pushedBy]

@[simp]
theorem pushedBy_self (thread : Fin producerThreadCount) (value : Int) :
    pushedBy thread [(thread, value)] = [value] := by
  simp [pushedBy]

theorem pushedBy_other {thread other : Fin producerThreadCount} (different : thread ≠ other)
    (value : Int) : pushedBy other [(thread, value)] = [] := by
  simp [pushedBy, different]

/-- The values one producer has pushed and the one it is about to push. -/
def ownValues (log : List (Fin producerThreadCount × Int)) (thread : Fin producerThreadCount) :
    ProducerPosition → List Int
  | .pushing _ value => pushedBy thread log ++ [value]
  | _ => pushedBy thread log

/-- The log of the pushes of a run, against the state it has led to. -/
structure InOrder (iterations : Nat) (state : State producerThreadCount consumerThreadCount)
    (log : List (Fin producerThreadCount × Int)) : Prop where
  /-- The queue hands the values out in the order of the pushes. -/
  values : log.map Prod.snd = state.popped ++ state.queue
  increasing : ∀ thread,
    (ownValues log thread (state.producers thread)).Pairwise (· < ·)
  taken : ∀ thread, ∀ value ∈ ownValues log thread (state.producers thread),
    value ≤ state.producerCount
  finished : ∀ thread,
    (pushedBy thread log).length = rounds iterations (state.producers thread)

theorem inOrder_initial :
    InOrder iterations (initial : State producerThreadCount consumerThreadCount) [] where
  values := rfl
  increasing _ := .nil
  taken _ := nofun
  finished _ := rfl

namespace InOrder

variable {before after : State producerThreadCount consumerThreadCount}
  {log : List (Fin producerThreadCount × Int)}

/-- Steps of the other threads do not touch what the producers have. -/
theorem of_same (inOrder : InOrder iterations before log)
    (values : after.popped ++ after.queue = before.popped ++ before.queue)
    (producers : after.producers = before.producers)
    (producerCount : after.producerCount = before.producerCount) :
    InOrder iterations after log where
  values := inOrder.values.trans values.symm
  increasing := by
    rw [producers]
    exact inOrder.increasing
  taken := by
    rw [producers, producerCount]
    exact inOrder.taken
  finished := by
    rw [producers]
    exact inOrder.finished

theorem consumer (inOrder : InOrder iterations before log) {thread : Fin consumerThreadCount}
    (taken : consumer before thread = some after) : InOrder iterations after log := by
  unfold Lockfree.consumer at taken
  split at taken
  case h_1 => cases taken; exact inOrder.of_same rfl rfl rfl
  case h_2 =>
    split at taken <;> cases taken
    case h_1.refl => exact inOrder.of_same rfl rfl rfl
    case h_2.refl value rest nonempty => exact inOrder.of_same (by simp [nonempty]) rfl rfl
  case h_3 => cases taken; exact inOrder.of_same rfl rfl rfl
  case h_4 => cases taken

theorem testLockfree (inOrder : InOrder iterations before log)
    (taken : testLockfree before = some after) : InOrder iterations after log := by
  unfold Lockfree.testLockfree at taken
  split at taken
  case h_1 | h_2 => split at taken <;> cases taken <;> exact inOrder.of_same rfl rfl rfl
  case h_3 | h_4 =>
    split at taken
    · split at taken <;> cases taken
      exact inOrder.of_same rfl rfl rfl
    · cases taken
      exact inOrder.of_same rfl rfl rfl
  case h_5 => cases taken

theorem ownValues_eq_of_pushedBy_eq {front back : List (Fin producerThreadCount × Int)}
    {thread : Fin producerThreadCount} (same : pushedBy thread front = pushedBy thread back)
    (position : ProducerPosition) :
    ownValues front thread position = ownValues back thread position := by
  cases position <;> simp [ownValues, same]

/-- A producer that moves answers for its own values only. -/
theorem moveProducer (inOrder : InOrder iterations before log) {thread : Fin producerThreadCount}
    {position : ProducerPosition} {entries : List (Fin producerThreadCount × Int)}
    {queue : List Int} {producerCount : Int} (grows : before.producerCount ≤ producerCount)
    (values : queue = before.queue ++ entries.map Prod.snd)
    (others : ∀ other, other ≠ thread → pushedBy other entries = [])
    (increasing : (ownValues (log ++ entries) thread position).Pairwise (· < ·))
    (taken : ∀ value ∈ ownValues (log ++ entries) thread position, value ≤ producerCount)
    (finished : (pushedBy thread (log ++ entries)).length = rounds iterations position) :
    InOrder iterations
      { before with
        queue, producerCount, producers := update before.producers thread position }
      (log ++ entries) := by
  have kept other (different : other ≠ thread) :
      pushedBy other (log ++ entries) = pushedBy other log := by
    rw [pushedBy_append, others other different, List.append_nil]
  constructor
  case values => rw [List.map_append, inOrder.values, values, List.append_assoc]
  case increasing =>
    intro other
    by_cases same : other = thread
    · subst same
      simpa using increasing
    · simp only [update_of_ne same]
      rw [ownValues_eq_of_pushedBy_eq (kept other same)]
      exact inOrder.increasing other
  case taken =>
    intro other value
    by_cases same : other = thread
    · subst same
      simpa using taken value
    · simp only [update_of_ne same]
      rw [ownValues_eq_of_pushedBy_eq (kept other same)]
      exact fun member => (inOrder.taken other value member).trans grows
  case finished =>
    intro other
    by_cases same : other = thread
    · subst same
      simpa using finished
    · simp only [update_of_ne same]
      rw [kept other same]
      exact inOrder.finished other

/-- A step of a producer, of a test in which the counter does not wrap. -/
theorem producer (inOrder : InOrder iterations before log)
    {thread : Fin producerThreadCount} {success : Bool}
    (next : ∀ i, before.producers thread = .looping i → i ≠ iterations →
      increment before.producerCount = before.producerCount + 1)
    (taken : producer iterations before thread success = some after) :
    InOrder iterations after (log ++ pushed before (.producer thread success)) := by
  have increasing := inOrder.increasing thread
  have bounded := inOrder.taken thread
  have finished := inOrder.finished thread
  unfold Lockfree.producer at taken
  split at taken
  case h_1 i looping =>
    have nothing : pushed before (.producer thread success) = [] := by
      cases success <;> simp [pushed, looping]
    rw [looping] at increasing bounded finished
    rw [nothing]
    split at taken <;> cases taken
    case isTrue.refl last =>
      refine inOrder.moveProducer le_rfl (List.append_nil _).symm (fun _ _ => rfl) ?_ ?_ ?_ <;>
        rw [List.append_nil]
      · exact increasing
      · exact bounded
      · exact finished.trans last
    case isFalse.refl more =>
      rw [next i looping more]
      refine inOrder.moveProducer (by omega) (List.append_nil _).symm (fun _ _ => rfl)
        ?_ ?_ ?_ <;> rw [List.append_nil]
      · refine List.pairwise_append.mpr ⟨increasing, List.pairwise_singleton _ _, ?_⟩
        intro value member latest isLatest
        obtain rfl := List.mem_singleton.mp isLatest
        have below := bounded value member
        omega
      · intro value member
        rcases List.mem_append.mp member with earlier | latest
        · have below := bounded value earlier
          omega
        · exact (List.mem_singleton.mp latest).le
      · exact finished
  case h_2 i value pushing =>
    rw [pushing] at increasing bounded finished
    split at taken <;> cases taken
    case isTrue.refl succeeded =>
      have entry : pushed before (.producer thread success) = [(thread, value)] := by
        simp [pushed, pushing, succeeded]
      rw [entry]
      refine inOrder.moveProducer le_rfl rfl (fun other different => ?_) ?_ ?_ ?_
      · exact pushedBy_other different.symm value
      · simpa [ownValues] using increasing
      · simpa [ownValues] using bounded
      · simpa [rounds] using finished
    case isFalse.refl failed =>
      have nothing : pushed before (.producer thread success) = [] := by
        cases success with
        | true => exact (failed rfl).elim
        | false => rfl
      rw [nothing, List.append_nil]
      exact inOrder
  case h_3 => cases taken

/-- The counter does not wrap where a producer increments it. -/
theorem increment_of_looping (fits : producerThreadCount * iterations < 2 ^ 31)
    (conserved : Conserved iterations before) {thread : Fin producerThreadCount} {i : Nat}
    (looping : before.producers thread = .looping i) (more : i ≠ iterations) :
    increment before.producerCount = before.producerCount + 1 := by
  have produced := (conserved.produce fits looping more).produced
  have moved := tally_update (Lockfree.taken iterations) before.producers thread
    (.pushing i (increment before.producerCount))
  have counted := conserved.produced
  rw [looping] at moved
  simp only [Lockfree.taken] at moved
  dsimp only at produced
  omega

theorem step (fits : producerThreadCount * iterations < 2 ^ 31) (sound : Sound iterations before)
    (inOrder : InOrder iterations before log)
    {choice : Choice producerThreadCount consumerThreadCount}
    (taken : step iterations before choice = some after) :
    InOrder iterations after (log ++ pushed before choice) := by
  cases choice with
  | main =>
      simp only [pushed, List.append_nil]
      exact inOrder.testLockfree taken
  | producer thread success =>
      simp only [Lockfree.step] at taken
      split at taken
      · exact inOrder.producer (fun _ => increment_of_looping fits sound.conserved) taken
      · cases taken
  | consumer thread =>
      simp only [Lockfree.step] at taken
      simp only [pushed, List.append_nil]
      split at taken
      · exact inOrder.consumer taken
      · cases taken

end InOrder

/-- In every run the values popped and then the values queued are those pushed, in the order of the
pushes; each producer has pushed one value for each round it has finished, in increasing order. -/
theorem run_pushes_in_order (fits : producerThreadCount * iterations < 2 ^ 31)
    {schedule : List (Choice producerThreadCount consumerThreadCount)}
    {state : State producerThreadCount consumerThreadCount}
    (execution : run (step iterations) initial schedule = some state) :
    (trace (step iterations) pushed initial schedule).map Prod.snd =
        state.popped ++ state.queue ∧
      ∀ thread,
        (pushedBy thread (trace (step iterations) pushed initial schedule)).Pairwise (· < ·) ∧
          (pushedBy thread (trace (step iterations) pushed initial schedule)).length =
            rounds iterations (state.producers thread) := by
  obtain ⟨_, inOrder⟩ := @trace_invariant _ _ (step iterations) _ pushed
    (fun state log => Sound iterations state ∧ InOrder iterations state log)
    (fun _ _ _ _ ⟨sound, inOrder⟩ taken => ⟨sound.step fits taken, inOrder.step fits sound taken⟩)
    schedule initial state [] ⟨sound_initial, inOrder_initial⟩ execution
  rw [List.nil_append] at inOrder
  refine ⟨inOrder.values, fun thread => ⟨?_, inOrder.finished thread⟩⟩
  have increasing := inOrder.increasing thread
  cases position : state.producers thread with
  | pushing i value =>
      rw [position] at increasing
      exact (List.pairwise_append.mp increasing).1
  | looping i | returned =>
      rw [position] at increasing
      exact increasing

/-- Of two producers the one that took the first value pushes last. -/
theorem run_pushes_in_order_overtaken :
    ∃ schedule, ∃ state : State 2 1, run (step 1) initial schedule = some state ∧
      state.popped = [] ∧ state.queue = [2, 1] ∧
        (trace (step 1) pushed (initial : State 2 1) schedule).map Prod.snd = [2, 1] ∧
          (pushedBy 0 (trace (step 1) pushed (initial : State 2 1) schedule)).length = 1 := by
  let schedule : List (Choice 2 1) :=
    [.main, .main, .producer 0 false, .producer 1 false, .producer 0 false, .producer 1 true,
      .producer 0 true]
  have enabled : (run (step 1) (initial : State 2 1) schedule).isSome := by decide
  have execution := (Option.some_get enabled).symm
  obtain ⟨values, producers⟩ := run_pushes_in_order (by decide) execution
  exact ⟨schedule, _, execution, rfl, rfl, values, (producers 0).2⟩

end Lockfree
end BoostTest
