import BoostTest.Lib.Potential
import BoostTest.Lockfree.Drain
import Mathlib.Algebra.Group.Action.Defs
import Mathlib.Tactic.Ring

/-!
# The lock-free queue test ends

The threads of the test repeat themselves in two places only: a producer whose `push` fails, and a
consumer that finds the queue empty before `done` is stored.  All other steps of a run are bounded
by the sizes of the test, and from every state some of them lead to its end.
-/

namespace BoostTest
namespace Lockfree

open Function Execution

variable {producerThreadCount consumerThreadCount iterations : Nat}

/-- How many steps a producer still has before it, its failed pushes not counted. -/
def producerLeft (iterations : Nat) : ProducerPosition → Nat
  | .looping i => 2 * (iterations - i) + 1
  | .pushing i _ => 2 * (iterations - i)
  | .returned => 0

/-- How many steps a consumer still has before it, the values it pops and its tests of `done` that
read false not counted. -/
def consumerLeft : ConsumerPosition → Nat
  | .testing => 2
  | .draining last => if last then 1 else 3
  | .counting last => if last then 2 else 4
  | .returned => 0

/-- How many steps `test_lockfree` still has before it. -/
def mainLeft (producerThreadCount consumerThreadCount : Nat) : MainPosition → Nat
  | .creatingProducers i =>
      (producerThreadCount - i) + 1 + (2 * consumerThreadCount + producerThreadCount + 3)
  | .creatingConsumers i =>
      (consumerThreadCount - i) + 1 + (consumerThreadCount + producerThreadCount + 2)
  | .joiningProducers i => (producerThreadCount - i) + 1 + (consumerThreadCount + 1)
  | .joiningConsumers i => (consumerThreadCount - i) + 1
  | .returned => 0

/-- How many steps the test still has before it, apart from its spinning.  A value not popped yet
will be popped and counted. -/
def left (iterations : Nat) (state : State producerThreadCount consumerThreadCount) : Nat :=
  mainLeft producerThreadCount consumerThreadCount state.main +
      tally (producerLeft iterations) state.producers + tally consumerLeft state.consumers +
    2 * (producerThreadCount * iterations - state.popped.length)

/-- The cost of a step that may be repeated at will: one for a `push` that fails, and two for a test
of `done` that reads false, since an attempt to pop goes with it. -/
def spinning (state : State producerThreadCount consumerThreadCount) :
    Choice producerThreadCount consumerThreadCount → Nat
  | .main => 0
  | .producer thread pushed =>
      match state.producers thread, pushed with
      | .pushing _ _, false => 1
      | _, _ => 0
  | .consumer thread =>
      match state.consumers thread, state.done with
      | .testing, false => 2
      | _, _ => 0

/-- Where `test_lockfree` is in its loops, and what it has waited for. -/
def Staged (state : State producerThreadCount consumerThreadCount) : Prop :=
  match state.main with
  | .creatingProducers i => i ≤ producerThreadCount
  | .creatingConsumers i => i ≤ consumerThreadCount
  | .joiningProducers _ => True
  | .joiningConsumers i =>
      state.done = true ∧ ∀ thread, thread.val < i → state.consumers thread = .returned
  | .returned => state.done = true ∧ ∀ thread, state.consumers thread = .returned

theorem staged_initial : Staged (initial : State producerThreadCount consumerThreadCount) :=
  Nat.zero_le _

variable {before after : State producerThreadCount consumerThreadCount}

theorem Staged.producer (staged : Staged before) {thread : Fin producerThreadCount}
    {pushed : Bool} (taken : producer iterations before thread pushed = some after) :
    Staged after := by
  unfold Lockfree.producer at taken
  split at taken
  case h_1 => split at taken <;> cases taken <;> exact staged
  case h_2 => split at taken <;> cases taken <;> exact staged
  case h_3 => cases taken

/-- A consumer that has returned stays where it is. -/
theorem Staged.moveConsumer (staged : Staged before) {thread : Fin consumerThreadCount}
    (running : before.consumers thread ≠ .returned) (position : ConsumerPosition)
    (queue popped : List Int) (consumerCount : Int) :
    Staged
      { before with
        queue, popped, consumerCount
        consumers := update before.consumers thread position } := by
  have kept : ∀ other, before.consumers other = .returned →
      update before.consumers thread position other = .returned := by
    intro other returned
    have different : other ≠ thread := by
      rintro rfl
      exact running returned
    rw [update_of_ne different, returned]
  unfold Staged at staged ⊢
  dsimp only
  split at staged
  case h_1 | h_2 | h_3 => exact staged
  case h_4 => exact ⟨staged.1, fun other below => kept other (staged.2 other below)⟩
  case h_5 => exact ⟨staged.1, fun other => kept other (staged.2 other)⟩

theorem Staged.consumer (staged : Staged before) {thread : Fin consumerThreadCount}
    (taken : consumer before thread = some after) : Staged after := by
  unfold Lockfree.consumer at taken
  split at taken
  case h_1 testing =>
    cases taken
    exact staged.moveConsumer (by rw [testing]; nofun) _ before.queue before.popped
      before.consumerCount
  case h_2 last draining =>
    split at taken <;> cases taken <;>
      exact staged.moveConsumer (by rw [draining]; nofun) _ _ _ before.consumerCount
  case h_3 last counting =>
    cases taken
    exact staged.moveConsumer (by rw [counting]; nofun) _ before.queue before.popped _
  case h_4 => cases taken

/-- A step of `test_lockfree` keeps it within its loops and brings it nearer to its end. -/
theorem Staged.testLockfree (staged : Staged before) (taken : testLockfree before = some after) :
    Staged after ∧ left iterations after < left iterations before := by
  unfold Lockfree.testLockfree at taken
  unfold Staged at staged
  split at taken
  case h_1 i creating =>
    rw [creating] at staged
    dsimp only at staged
    split at taken <;> cases taken
    case isTrue.refl last =>
      exact ⟨Nat.zero_le _, by simp only [left, creating, mainLeft]; omega⟩
    case isFalse.refl more =>
      exact ⟨Nat.lt_of_le_of_ne staged more, by simp only [left, creating, mainLeft]; omega⟩
  case h_2 i creating =>
    rw [creating] at staged
    dsimp only at staged
    split at taken <;> cases taken
    case isTrue.refl last => exact ⟨trivial, by simp only [left, creating, mainLeft]; omega⟩
    case isFalse.refl more =>
      exact ⟨Nat.lt_of_le_of_ne staged more, by simp only [left, creating, mainLeft]; omega⟩
  case h_3 i joining =>
    split at taken
    case isTrue within =>
      split at taken <;> cases taken
      case isTrue.refl returned => exact ⟨trivial, by simp only [left, joining, mainLeft]; omega⟩
    case isFalse all =>
      cases taken
      exact ⟨⟨rfl, fun _ below => (Nat.not_lt_zero _ below).elim⟩,
        by simp only [left, joining, mainLeft]; omega⟩
  case h_4 i joining =>
    rw [joining] at staged
    obtain ⟨stored, joined⟩ := staged
    split at taken
    case isTrue within =>
      split at taken <;> cases taken
      case isTrue.refl returned =>
        refine ⟨⟨stored, fun thread below => ?_⟩, by simp only [left, joining, mainLeft]; omega⟩
        rcases Nat.lt_succ_iff_lt_or_eq.mp below with earlier | last
        · exact joined thread earlier
        · have newest : thread = ⟨i, within⟩ := Fin.ext last
          rw [newest]
          exact returned
    case isFalse all =>
      cases taken
      refine ⟨⟨stored, fun thread => joined thread ?_⟩,
        by simp only [left, joining, mainLeft]; omega⟩
      exact thread.isLt.trans_le (Nat.le_of_not_lt all)
  case h_5 => cases taken

theorem Staged.step (staged : Staged before)
    {choice : Choice producerThreadCount consumerThreadCount}
    (taken : step iterations before choice = some after) : Staged after := by
  cases choice with
  | main => exact (@Staged.testLockfree _ _ iterations _ _ staged taken).1
  | producer thread pushed =>
      simp only [Lockfree.step] at taken
      split at taken
      · exact staged.producer taken
      · cases taken
  | consumer thread =>
      simp only [Lockfree.step] at taken
      split at taken
      · exact staged.consumer taken
      · cases taken

/-- A step of a producer brings the test nearer to its end, or is a failed push. -/
theorem left_producer (conserved : Conserved iterations before) {thread : Fin producerThreadCount}
    {pushed : Bool} (taken : producer iterations before thread pushed = some after) :
    1 + left iterations after ≤
      spinning before (.producer thread pushed) + left iterations before := by
  have within := conserved.within thread
  unfold producer at taken
  split at taken
  case h_1 i looping =>
    rw [looping] at within
    split at taken <;> cases taken
    case isTrue.refl last =>
      have moved := tally_update (producerLeft iterations) before.producers thread .returned
      simp only [looping, producerLeft] at moved
      simp only [left, spinning, looping]
      omega
    case isFalse.refl more =>
      have below : i < iterations := Nat.lt_of_le_of_ne within more
      have moved := tally_update (producerLeft iterations) before.producers thread
        (.pushing i (increment before.producerCount))
      simp only [looping, producerLeft] at moved
      simp only [left, spinning, looping]
      omega
  case h_2 i value pushing =>
    rw [pushing] at within
    have below : i + 1 ≤ iterations := within
    split at taken <;> cases taken
    case isTrue.refl success =>
      have moved := tally_update (producerLeft iterations) before.producers thread
        (.looping (i + 1))
      simp only [pushing, producerLeft] at moved
      simp only [left]
      omega
    case isFalse.refl failed =>
      rw [Bool.not_eq_true] at failed
      simp [spinning, pushing, failed]
  case h_3 => cases taken

/-- A step of a consumer brings the test nearer to its end, or reads `done` as false. -/
theorem left_consumer (conserved : Conserved iterations before) {thread : Fin consumerThreadCount}
    (taken : consumer before thread = some after) :
    1 + left iterations after ≤ spinning before (.consumer thread) + left iterations before := by
  unfold consumer at taken
  split at taken
  case h_1 testing =>
    cases taken
    have moved := tally_update consumerLeft before.consumers thread (.draining before.done)
    simp only [testing, consumerLeft] at moved
    simp only [left, spinning, testing]
    cases stored : before.done <;> simp only [stored] at moved ⊢ <;> simp at moved <;> omega
  case h_2 last draining =>
    split at taken <;> cases taken
    case h_1.refl nothing =>
      have moved := tally_update consumerLeft before.consumers thread
        (if last then .returned else .testing)
      simp only [draining, consumerLeft] at moved
      simp only [left, spinning, draining]
      cases last <;> simp at moved ⊢ <;> omega
    case h_2.refl value rest nonempty =>
      have moved := tally_update consumerLeft before.consumers thread (.counting last)
      have popped : before.popped.length < producerThreadCount * iterations := by
        have among := Multiset.card_le_card conserved.popped_append_queue_le
        have enough := conserved.taken_le
        rw [nonempty, Multiset.coe_card, List.length_append, List.length_cons,
          card_issued] at among
        omega
      simp only [draining, consumerLeft] at moved
      simp only [left, spinning, draining, List.length_append, List.length_singleton]
      cases last <;> simp at moved ⊢ <;> omega
  case h_3 last counting =>
    cases taken
    have moved := tally_update consumerLeft before.consumers thread (.draining last)
    simp only [counting, consumerLeft] at moved
    simp only [left, spinning, counting]
    cases last <;> simp at moved ⊢ <;> omega
  case h_4 => cases taken

theorem left_step (conserved : Conserved iterations before) (staged : Staged before)
    {choice : Choice producerThreadCount consumerThreadCount}
    (taken : step iterations before choice = some after) :
    1 + left iterations after ≤ spinning before choice + left iterations before := by
  cases choice with
  | main =>
      have nearer := (@Staged.testLockfree _ _ iterations _ _ staged taken).2
      omega
  | producer thread pushed =>
      simp only [step] at taken
      split at taken
      · exact left_producer conserved taken
      · cases taken
  | consumer thread =>
      simp only [step] at taken
      split at taken
      · exact left_consumer conserved taken
      · cases taken

/-- The invariant of all runs. -/
structure Sound (iterations : Nat) (state : State producerThreadCount consumerThreadCount) :
    Prop where
  conserved : Conserved iterations state
  ordered : Ordered state
  staged : Staged state

theorem sound_initial :
    Sound iterations (initial : State producerThreadCount consumerThreadCount) :=
  ⟨conserved_initial, ordered_initial, staged_initial⟩

theorem Sound.step (fits : producerThreadCount * iterations < 2 ^ 31)
    (sound : Sound iterations before)
    {choice : Choice producerThreadCount consumerThreadCount}
    (taken : step iterations before choice = some after) : Sound iterations after where
  conserved := sound.conserved.step fits (does_of_step taken)
  ordered := sound.ordered.step (does_of_step taken)
  staged := sound.staged.step taken

theorem sound_of_reachable (fits : producerThreadCount * iterations < 2 ^ 31)
    {state : State producerThreadCount consumerThreadCount}
    (reach : Reachable (step iterations) initial state) : Sound iterations state :=
  reach.invariant sound_initial fun _ _ _ sound => sound.step fits

theorem left_initial :
    left iterations (initial : State producerThreadCount consumerThreadCount) =
      4 * (producerThreadCount * iterations) + 3 * producerThreadCount +
        4 * consumerThreadCount + 4 := by
  simp only [left, initial, mainLeft, tally, producerLeft, consumerLeft, Finset.sum_const,
    Finset.card_univ, Fintype.card_fin, smul_eq_mul, Nat.sub_zero, List.length_nil]
  ring

/-- However the threads are scheduled, the steps of a run in which nothing spins are bounded by the
sizes of the test. -/
theorem run_length_le (fits : producerThreadCount * iterations < 2 ^ 31)
    {schedule : List (Choice producerThreadCount consumerThreadCount)}
    {state : State producerThreadCount consumerThreadCount}
    (execution : run (step iterations) initial schedule = some state) :
    schedule.length ≤
      4 * (producerThreadCount * iterations) + 3 * producerThreadCount +
          4 * consumerThreadCount + 4 +
        total (step iterations) spinning initial schedule := by
  have bound := @total_spends_le _ _ (step iterations) (left iterations) spinning (fun _ _ => 1)
    (Sound iterations)
    (fun _ _ _ sound taken => ⟨sound.step fits taken, left_step sound.conserved sound.staged taken⟩)
    schedule initial state sound_initial execution
  rw [total_one execution, left_initial] at bound
  omega

/-- A run of one producer and two consumers, one of which looks for a value before it is there. -/
theorem run_length_le_one_value :
    ∃ (schedule : List (Choice 1 2)) (state : State 1 2),
      run (step 1) initial schedule = some state ∧ total (step 1) spinning initial schedule = 3 ∧
        schedule.length ≤ 4 * (1 * 1) + 3 * 1 + 4 * 2 + 4 + 3 := by
  let schedule : List (Choice 1 2) :=
    [.main, .main, .main, .main, .main, .consumer 0, .consumer 0, .producer 0 false,
      .producer 0 false, .producer 0 true, .producer 0 false, .main, .main]
  have enabled : (run (step 1) (initial : State 1 2) schedule).isSome := by decide
  have execution := (Option.some_get enabled).symm
  exact ⟨schedule, _, execution, rfl, run_length_le (by decide) execution⟩

/-- A `push` that succeeds does not spin. -/
theorem spinning_push (state : State producerThreadCount consumerThreadCount)
    (thread : Fin producerThreadCount) : spinning state (.producer thread true) = 0 := by
  simp only [spinning]
  cases state.producers thread <;> rfl

/-- Once `done` is stored no consumer spins. -/
theorem spinning_consumer {state : State producerThreadCount consumerThreadCount}
    (stored : state.done = true) (thread : Fin consumerThreadCount) :
    spinning state (.consumer thread) = 0 := by
  simp only [spinning, stored]
  cases state.consumers thread <;> rfl

/-- A producer that has not returned can take a step that does not spin. -/
theorem isSome_producer {state : State producerThreadCount consumerThreadCount}
    {thread : Fin producerThreadCount} (running : state.producers thread ≠ .returned) :
    (producer iterations state thread true).isSome := by
  unfold producer
  split
  case h_1 => split <;> rfl
  case h_2 => rfl
  case h_3 returned => exact (running returned).elim

theorem isSome_consumer {state : State producerThreadCount consumerThreadCount}
    {thread : Fin consumerThreadCount} (running : state.consumers thread ≠ .returned) :
    (consumer state thread).isSome := by
  unfold consumer
  split
  case h_1 => rfl
  case h_2 => split <;> rfl
  case h_3 => rfl
  case h_4 returned => exact (running returned).elim

/-- Until `test_lockfree` has returned, it or the thread it waits for can take a step that does not
spin. -/
theorem exists_useful_step {state : State producerThreadCount consumerThreadCount}
    (staged : Staged state) (running : state.main ≠ .returned) :
    ∃ choice, spinning state choice = 0 ∧ (step iterations state choice).isSome := by
  cases stage : state.main with
  | creatingProducers i | creatingConsumers i =>
      refine ⟨.main, rfl, ?_⟩
      simp only [step, testLockfree, stage]
      split <;> rfl
  | joiningProducers i =>
      by_cases within : i < producerThreadCount
      · by_cases returned : state.producers ⟨i, within⟩ = .returned
        · exact ⟨.main, rfl, by simp [step, testLockfree, stage, within, returned]⟩
        · refine ⟨.producer ⟨i, within⟩ true, spinning_push state _, ?_⟩
          simp only [step, stage, MainPosition.hasProducer, if_true]
          exact isSome_producer returned
      · exact ⟨.main, rfl, by simp [step, testLockfree, stage, within]⟩
  | joiningConsumers i =>
      unfold Staged at staged
      rw [stage] at staged
      by_cases within : i < consumerThreadCount
      · by_cases returned : state.consumers ⟨i, within⟩ = .returned
        · exact ⟨.main, rfl, by simp [step, testLockfree, stage, within, returned]⟩
        · refine ⟨.consumer ⟨i, within⟩, spinning_consumer staged.1 _, ?_⟩
          simp only [step, stage, MainPosition.hasConsumer, if_true]
          exact isSome_consumer returned
      · exact ⟨.main, rfl, by simp [step, testLockfree, stage, within]⟩
  | returned => exact (running stage).elim

/-- From every state of every run the test can be brought to its end, and where it has ended all
threads have, the queue is empty and both counters it prints have counted every value. -/
theorem test_ends (consumers_pos : 0 < consumerThreadCount)
    (fits : producerThreadCount * iterations < 2 ^ 31)
    {state : State producerThreadCount consumerThreadCount}
    (reach : Reachable (step iterations) initial state) :
    (∃ schedule final, run (step iterations) state schedule = some final ∧
        final.main = .returned) ∧
      (state.main = .returned →
        (∀ thread, state.producers thread = .returned) ∧
          (∀ thread, state.consumers thread = .returned) ∧ state.queue = [] ∧
            state.producerCount = (producerThreadCount * iterations : Nat) ∧
              state.consumerCount = (producerThreadCount * iterations : Nat)) := by
  have sound := sound_of_reachable fits reach
  constructor
  · obtain ⟨schedule, final, execution, _, ended, _⟩ :=
      @exists_run_to_rest _ _ (step iterations) (left iterations) (Sound iterations)
        (fun state => state.main = .returned) (fun _ _ => True)
        (by
          intro before sound running
          obtain ⟨choice, useful, enabled⟩ :=
            @exists_useful_step _ _ iterations before sound.staged running
          obtain ⟨next, taken⟩ := Option.isSome_iff_exists.mp enabled
          have nearer := left_step sound.conserved sound.staged taken
          exact ⟨choice, next, trivial, taken, sound.step fits taken, by omega⟩)
        state sound
    exact ⟨schedule, final, execution, ended⟩
  · intro ended
    have staged := sound.staged
    unfold Staged at staged
    rw [ended] at staged
    obtain ⟨stored, consumers⟩ := staged
    have producers := sound.ordered.stored stored
    have nothing := sound.ordered.drained _ (consumers ⟨0, consumers_pos⟩)
    obtain ⟨_, produced, consumed⟩ := sound.conserved.final nothing producers consumers
    exact ⟨producers, consumers, nothing, produced, consumed⟩

/-- A test with one value and two consumers, run to its end. -/
theorem test_ends_one_value :
    ∃ schedule state, run (step 1) (initial : State 1 2) schedule = some state ∧
      state.main = .returned ∧ (∀ thread, state.consumers thread = .returned) ∧
        state.popped = [1] ∧ state.queue = [] ∧ state.producerCount = 1 ∧
          state.consumerCount = 1 := by
  -- the first `push` fails, and the second consumer leaves before the first has counted
  let schedule : List (Choice 1 2) :=
    [.main, .main, .main, .main, .main, .consumer 0, .consumer 0, .producer 0 false,
      .producer 0 false, .producer 0 true, .producer 0 false, .consumer 1, .main, .main,
      .consumer 0, .consumer 0, .consumer 1, .consumer 1, .consumer 1, .consumer 0, .consumer 0,
      .main, .main, .main]
  have enabled : (run (step 1) (initial : State 1 2) schedule).isSome := by decide
  obtain ⟨_, ended⟩ := @test_ends 1 2 1 (by decide) (by decide) _
    (Reachable.of_isSome schedule enabled)
  obtain ⟨_, consumers, nothing, produced, consumed⟩ := ended rfl
  exact ⟨schedule, _, (Option.some_get enabled).symm, rfl, consumers, rfl, nothing, produced,
    consumed⟩

end Lockfree
end BoostTest
