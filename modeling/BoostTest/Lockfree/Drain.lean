import BoostTest.Lockfree.Model
import Mathlib.Algebra.Order.BigOperators.Group.Finset
import Mathlib.Data.Multiset.Range

/-!
# The drain protocol of the lock-free queue test

Every value a producer has taken from `producer_count` is about to be pushed, queued, or popped, and
none is two of these.  The flag `done` is stored after all producers have returned, and a consumer
enters its second loop only after reading it, so the empty queue that ends that loop stays empty.
-/

namespace BoostTest
namespace Lockfree

open Function Execution

variable {producerThreadCount consumerThreadCount iterations : Nat}

/-- The value a producer has taken and not yet pushed. -/
def inFlight : ProducerPosition → Multiset Int
  | .pushing _ value => {value}
  | _ => 0

/-- How many values a producer has taken. -/
def taken (iterations : Nat) : ProducerPosition → Nat
  | .looping i => i
  | .pushing i _ => i + 1
  | .returned => iterations

/-- A consumer that has popped a value it has not counted yet. -/
def isCounting : ConsumerPosition → Bool
  | .counting _ => true
  | _ => false

/-- A consumer that has read `done` as true. -/
def hasSeenDone : ConsumerPosition → Bool
  | .draining last => last
  | .counting last => last
  | .returned => true
  | .testing => false

/-- The first `number` values of `++producer_count`. -/
def issued (number : Nat) : Multiset Int :=
  (Multiset.range number).map fun k : Nat => (k : Int) + 1

theorem issued_succ (number : Nat) :
    issued (number + 1) = issued number + {(number : Int) + 1} := by
  rw [issued, Multiset.range_succ, Multiset.map_cons, ← Multiset.singleton_add, add_comm]
  rfl

theorem nodup_issued (number : Nat) : (issued number).Nodup :=
  (Multiset.nodup_range number).map fun _ _ same => Int.ofNat.inj (add_right_cancel same)

theorem mem_issued {number : Nat} {value : Int} :
    value ∈ issued number ↔ 1 ≤ value ∧ value ≤ number := by
  rw [issued, Multiset.mem_map]
  constructor
  · rintro ⟨k, member, rfl⟩
    have below := Multiset.mem_range.mp member
    omega
  · rintro ⟨low, high⟩
    exact ⟨(value - 1).toNat, Multiset.mem_range.mpr (by omega), by omega⟩

@[simp]
theorem card_issued (number : Nat) : (issued number).card = number := by simp [issued]

/-- Below the limit of `int` the counters do not wrap. -/
theorem increment_of_lt {count : Int} (nonneg : 0 ≤ count) (below : count + 1 < 2 ^ 31) :
    increment count = count + 1 :=
  Int.bmod_eq_of_le (by omega) (by omega)

/-- The part of the invariant that is about the values. -/
structure Conserved (iterations : Nat) (state : State producerThreadCount consumerThreadCount) :
    Prop where
  /-- Where the values are that the producers have taken. -/
  values : (state.popped : Multiset Int) + state.queue + tally inFlight state.producers =
    issued (tally (taken iterations) state.producers)
  within : ∀ thread, taken iterations (state.producers thread) ≤ iterations
  produced : state.producerCount = (tally (taken iterations) state.producers : Nat)
  nonneg : 0 ≤ state.consumerCount
  consumed : state.consumerCount + count isCounting state.consumers = state.popped.length

/-- The part of the invariant that is about the order in which the threads return. -/
structure Ordered (state : State producerThreadCount consumerThreadCount) : Prop where
  joined : ∀ joined thread, state.main = .joiningProducers joined → thread.val < joined →
    state.producers thread = .returned
  stored : state.done = true → ∀ thread, state.producers thread = .returned
  seen : ∀ thread, hasSeenDone (state.consumers thread) = true → state.done = true
  drained : ∀ thread, state.consumers thread = .returned → state.queue = []

theorem conserved_initial :
    Conserved iterations (initial : State producerThreadCount consumerThreadCount) := by
  have none : tally (taken iterations)
      (initial : State producerThreadCount consumerThreadCount).producers = 0 :=
    tally_const_zero fun _ => rfl
  have nothing : tally inFlight
      (initial : State producerThreadCount consumerThreadCount).producers = 0 :=
    tally_const_zero fun _ => rfl
  have nobody : count isCounting
      (initial : State producerThreadCount consumerThreadCount).consumers = 0 :=
    count_eq_zero_iff.mpr fun _ => rfl
  constructor
  case values =>
    rw [none, nothing]
    rfl
  case within => exact fun _ => Nat.zero_le iterations
  case produced =>
    rw [none]
    rfl
  case nonneg => exact le_rfl
  case consumed =>
    rw [nobody]
    rfl

theorem ordered_initial : Ordered (initial : State producerThreadCount consumerThreadCount) where
  joined _ _ := nofun
  stored := nofun
  seen _ := nofun
  drained _ := nofun

namespace Conserved

variable {before after : State producerThreadCount consumerThreadCount}

/-- The producers take no more values than they have rounds. -/
theorem taken_le (conserved : Conserved iterations before) :
    tally (taken iterations) before.producers ≤ producerThreadCount * iterations := by
  have each := Finset.sum_le_card_nsmul Finset.univ
    (fun thread => taken iterations (before.producers thread)) iterations
    fun thread _ => conserved.within thread
  simpa [tally] using each

/-- No more values are popped than taken. -/
theorem popped_le (conserved : Conserved iterations before) :
    before.popped.length ≤ tally (taken iterations) before.producers := by
  have sizes := congrArg Multiset.card conserved.values
  rw [Multiset.card_add, Multiset.card_add, Multiset.coe_card, card_issued] at sizes
  omega

theorem within_update (conserved : Conserved iterations before)
    (thread : Fin producerThreadCount) {position : ProducerPosition}
    (bounded : taken iterations position ≤ iterations) (other : Fin producerThreadCount) :
    taken iterations (update before.producers thread position other) ≤ iterations := by
  by_cases same : other = thread
  · rw [same, update_self]
    exact bounded
  · rw [update_of_ne same]
    exact conserved.within other

/-- A producer takes the next value. -/
theorem produce (fits : producerThreadCount * iterations < 2 ^ 31)
    (conserved : Conserved iterations before) {thread : Fin producerThreadCount} {i : Nat}
    (looping : before.producers thread = .looping i) (more : i ≠ iterations) :
    Conserved iterations
      { before with
        producerCount := increment before.producerCount
        producers :=
          update before.producers thread (.pushing i (increment before.producerCount)) } := by
  generalize next : increment before.producerCount = value
  have below := conserved.within thread
  rw [looping] at below
  have bounded : i + 1 ≤ iterations := Nat.lt_of_le_of_ne below more
  have takenMoved := tally_update (taken iterations) before.producers thread (.pushing i value)
  have flightMoved := tally_update inFlight before.producers thread (.pushing i value)
  rw [looping] at takenMoved flightMoved
  simp only [taken, inFlight, add_zero] at takenMoved flightMoved
  have within : ∀ other,
      taken iterations (update before.producers thread (.pushing i value) other) ≤ iterations :=
    conserved.within_update thread bounded
  have oneMore : tally (taken iterations) (update before.producers thread (.pushing i value)) =
      tally (taken iterations) before.producers + 1 := by
    omega
  have enough : tally (taken iterations) before.producers + 1 ≤
      producerThreadCount * iterations := by
    have each := Finset.sum_le_card_nsmul Finset.univ
      (fun other => taken iterations (update before.producers thread (.pushing i value) other))
      iterations fun other _ => within other
    rw [← oneMore]
    simpa [tally] using each
  have produced := conserved.produced
  have isNext : value = (tally (taken iterations) before.producers : Nat) + 1 := by
    rw [← next, produced]
    exact increment_of_lt (by omega) (by omega)
  constructor
  case values =>
    dsimp only
    rw [oneMore, issued_succ, ← conserved.values, ← isNext, flightMoved, add_assoc, add_assoc,
      add_assoc]
  case within => exact within
  case produced =>
    rw [oneMore, isNext]
    rfl
  case nonneg => exact conserved.nonneg
  case consumed => exact conserved.consumed

/-- A producer that has no value in its hands returns. -/
theorem finishProducing (conserved : Conserved iterations before)
    {thread : Fin producerThreadCount}
    (looping : before.producers thread = .looping iterations) :
    Conserved iterations
      { before with producers := update before.producers thread .returned } := by
  have takenMoved := tally_update (taken iterations) before.producers thread .returned
  have flightMoved := tally_update inFlight before.producers thread .returned
  rw [looping] at takenMoved flightMoved
  simp only [taken, inFlight, add_zero, add_left_inj] at takenMoved flightMoved
  constructor
  case values =>
    rw [takenMoved, flightMoved]
    exact conserved.values
  case within => exact conserved.within_update thread (Nat.le_refl iterations)
  case produced =>
    rw [takenMoved]
    exact conserved.produced
  case nonneg => exact conserved.nonneg
  case consumed => exact conserved.consumed

/-- A producer hands its value to the queue. -/
theorem push (conserved : Conserved iterations before) {thread : Fin producerThreadCount} {i : Nat}
    {value : Int} (pushing : before.producers thread = .pushing i value) :
    Conserved iterations
      { before with
        queue := before.queue ++ [value]
        producers := update before.producers thread (.looping (i + 1)) } := by
  have bounded := conserved.within thread
  have takenMoved := tally_update (taken iterations) before.producers thread (.looping (i + 1))
  have flightMoved := tally_update inFlight before.producers thread (.looping (i + 1))
  rw [pushing] at bounded takenMoved flightMoved
  simp only [taken, inFlight, add_zero, add_left_inj] at takenMoved flightMoved
  constructor
  case values =>
    rw [takenMoved, ← conserved.values, ← flightMoved, ← Multiset.coe_add, Multiset.coe_singleton]
    ac_rfl
  case within => exact conserved.within_update thread bounded
  case produced =>
    rw [takenMoved]
    exact conserved.produced
  case nonneg => exact conserved.nonneg
  case consumed => exact conserved.consumed

/-- A consumer moves without popping or counting. -/
theorem moveConsumer (conserved : Conserved iterations before) {thread : Fin consumerThreadCount}
    {position : ConsumerPosition}
    (same : isCounting position = isCounting (before.consumers thread)) :
    Conserved iterations
      { before with consumers := update before.consumers thread position } := by
  have countMoved := count_update isCounting before.consumers thread position
  rw [same, Nat.add_right_cancel_iff] at countMoved
  constructor
  case values => exact conserved.values
  case within => exact conserved.within
  case produced => exact conserved.produced
  case nonneg => exact conserved.nonneg
  case consumed =>
    rw [countMoved]
    exact conserved.consumed

/-- A consumer takes the oldest value of the queue. -/
theorem pop (conserved : Conserved iterations before) {thread : Fin consumerThreadCount}
    {last : Bool} {value : Int} {rest : List Int}
    (draining : before.consumers thread = .draining last)
    (nonempty : before.queue = value :: rest) :
    Conserved iterations
      { before with
        queue := rest
        popped := before.popped ++ [value]
        consumers := update before.consumers thread (.counting last) } := by
  have countMoved := count_update isCounting before.consumers thread (.counting last)
  rw [draining] at countMoved
  simp only [isCounting, Bool.toNat_true, Bool.toNat_false, add_zero] at countMoved
  constructor
  case values =>
    have oldest : ((value :: rest : List Int) : Multiset Int) = {value} + (rest : Multiset Int) :=
      (Multiset.singleton_add value rest).symm
    dsimp only
    rw [← conserved.values, nonempty, oldest, ← Multiset.coe_add, Multiset.coe_singleton]
    ac_rfl
  case within => exact conserved.within
  case produced => exact conserved.produced
  case nonneg => exact conserved.nonneg
  case consumed =>
    have consumed := conserved.consumed
    dsimp only
    rw [countMoved, List.length_append, List.length_singleton]
    omega

/-- A consumer counts the value it has popped. -/
theorem countUp (fits : producerThreadCount * iterations < 2 ^ 31)
    (conserved : Conserved iterations before) {thread : Fin consumerThreadCount} {last : Bool}
    (counting : before.consumers thread = .counting last) :
    Conserved iterations
      { before with
        consumerCount := increment before.consumerCount
        consumers := update before.consumers thread (.draining last) } := by
  have countMoved := count_update isCounting before.consumers thread (.draining last)
  rw [counting] at countMoved
  simp only [isCounting, Bool.toNat_true, Bool.toNat_false, add_zero] at countMoved
  have nonneg := conserved.nonneg
  have consumed := conserved.consumed
  have popped := conserved.popped_le
  have enough := conserved.taken_le
  have next : increment before.consumerCount = before.consumerCount + 1 :=
    increment_of_lt nonneg (by omega)
  constructor
  case values => exact conserved.values
  case within => exact conserved.within
  case produced => exact conserved.produced
  case nonneg =>
    dsimp only
    omega
  case consumed =>
    dsimp only
    omega

theorem step (fits : producerThreadCount * iterations < 2 ^ 31)
    (conserved : Conserved iterations before) (does : Does iterations before after) :
    Conserved iterations after := by
  cases does with
  | produce thread i looping more => exact conserved.produce fits looping more
  | finishProducing thread looping => exact conserved.finishProducing looping
  | push thread i value pushing => exact conserved.push pushing
  | retry => exact conserved
  | test thread testing => exact conserved.moveConsumer (by rw [testing]; rfl)
  | pop thread last value rest draining nonempty => exact conserved.pop draining nonempty
  | leave thread last draining nothing =>
      refine conserved.moveConsumer ?_
      rw [draining]
      cases last <;> rfl
  | count thread last counting => exact conserved.countUp fits counting
  | advance main joined =>
      obtain ⟨values, within, produced, nonneg, consumed⟩ := conserved
      exact ⟨values, within, produced, nonneg, consumed⟩
  | store i joining all =>
      obtain ⟨values, within, produced, nonneg, consumed⟩ := conserved
      exact ⟨values, within, produced, nonneg, consumed⟩

end Conserved

namespace Ordered

variable {before after : State producerThreadCount consumerThreadCount}

/-- No consumer has returned, and `done` is not stored, while a producer has not returned. -/
theorem not_done (ordered : Ordered before) {thread : Fin producerThreadCount}
    (running : before.producers thread ≠ .returned) : before.done = false := by
  cases stored : before.done with
  | false => rfl
  | true => exact (running (ordered.stored stored thread)).elim

/-- A producer that has not returned may do anything to the queue. -/
theorem moveProducer (ordered : Ordered before) {thread : Fin producerThreadCount}
    (running : before.producers thread ≠ .returned) (position : ProducerPosition)
    (queue : List Int) (producerCount : Int) :
    Ordered
      { before with
        queue, producerCount, producers := update before.producers thread position } := by
  have notDone := ordered.not_done running
  constructor
  case joined =>
    intro joined other joining below
    have returned := ordered.joined joined other joining below
    have different : other ≠ thread := by
      rintro rfl
      exact running returned
    exact (update_of_ne different position before.producers).trans returned
  case stored =>
    intro stored
    rw [notDone] at stored
    cases stored
  case seen => exact ordered.seen
  case drained =>
    intro other returned
    have stored := ordered.seen other (by rw [returned]; rfl)
    rw [notDone] at stored
    cases stored

/-- A consumer may go anywhere it can answer for. -/
theorem moveConsumer (ordered : Ordered before) (thread : Fin consumerThreadCount)
    (position : ConsumerPosition) (sees : hasSeenDone position = true → before.done = true)
    (leaves : position = .returned → before.queue = []) (popped : List Int) (consumerCount : Int)
    {queue : List Int} (shorter : before.queue = [] → queue = []) :
    Ordered
      { before with
        queue, popped, consumerCount
        consumers := update before.consumers thread position } := by
  constructor
  case joined => exact ordered.joined
  case stored => exact ordered.stored
  case seen =>
    intro other
    by_cases same : other = thread
    · subst same
      dsimp only
      rw [update_self]
      exact sees
    · dsimp only
      rw [update_of_ne same]
      exact ordered.seen other
  case drained =>
    intro other
    by_cases same : other = thread
    · subst same
      dsimp only
      rw [update_self]
      exact fun returned => shorter (leaves returned)
    · dsimp only
      rw [update_of_ne same]
      exact fun returned => shorter (ordered.drained other returned)

theorem step (ordered : Ordered before) (does : Does iterations before after) :
    Ordered after := by
  cases does with
  | produce thread i looping more =>
      exact ordered.moveProducer (by rw [looping]; nofun) _ before.queue _
  | finishProducing thread looping =>
      exact ordered.moveProducer (by rw [looping]; nofun) _ before.queue before.producerCount
  | push thread i value pushing =>
      exact ordered.moveProducer (by rw [pushing]; nofun) _ _ before.producerCount
  | retry => exact ordered
  | test thread testing =>
      exact ordered.moveConsumer thread (.draining before.done) id nofun before.popped
        before.consumerCount id
  | pop thread last value rest draining nonempty =>
      have seen := ordered.seen thread
      rw [draining] at seen
      refine ordered.moveConsumer thread (.counting last) seen nofun _ before.consumerCount
        fun nothing => ?_
      rw [nothing] at nonempty
      cases nonempty
  | leave thread last draining nothing =>
      have seen := ordered.seen thread
      rw [draining] at seen
      refine ordered.moveConsumer thread _ ?_ (fun _ => nothing) before.popped
        before.consumerCount id
      cases last with
      | true => exact seen
      | false => exact nofun
  | count thread last counting =>
      have seen := ordered.seen thread
      rw [counting] at seen
      exact ordered.moveConsumer thread (.draining last) seen nofun before.popped _ id
  | advance main joined =>
      refine ⟨fun count thread joining below => ?_, ordered.stored, ordered.seen, ordered.drained⟩
      cases count with
      | zero => exact (Nat.not_lt_zero _ below).elim
      | succ count =>
          obtain ⟨joining, within, returned⟩ := joined count joining
          rcases Nat.lt_succ_iff_lt_or_eq.mp below with earlier | last
          · exact ordered.joined count thread joining earlier
          · have newest : thread = ⟨count, within⟩ := Fin.ext last
            rw [newest]
            exact returned
  | store i joining all =>
      exact ⟨nofun, fun _ thread => ordered.joined i thread joining (thread.isLt.trans_le all),
        fun _ _ => rfl, ordered.drained⟩

end Ordered

/-- The values popped and the values queued are among those taken, without repetition. -/
theorem Conserved.popped_append_queue_le {state : State producerThreadCount consumerThreadCount}
    (conserved : Conserved iterations state) :
    ((state.popped ++ state.queue : List Int) : Multiset Int) ≤
      issued (tally (taken iterations) state.producers) := by
  rw [← conserved.values, ← Multiset.coe_add]
  exact Multiset.le_add_right _ _

/-- What the invariant says once all threads have returned and the queue is empty. -/
theorem Conserved.final {state : State producerThreadCount consumerThreadCount}
    (conserved : Conserved iterations state) (nothing : state.queue = [])
    (producers : ∀ thread, state.producers thread = .returned)
    (consumers : ∀ thread, state.consumers thread = .returned) :
    (state.popped : Multiset Int) = issued (producerThreadCount * iterations) ∧
      state.producerCount = (producerThreadCount * iterations : Nat) ∧
        state.consumerCount = (producerThreadCount * iterations : Nat) := by
  have nothingInFlight : tally inFlight state.producers = 0 :=
    tally_const_zero fun thread => by rw [producers thread]; rfl
  have nobodyCounting : count isCounting state.consumers = 0 :=
    count_eq_zero_iff.mpr fun thread => by rw [consumers thread]; rfl
  have all : tally (taken iterations) state.producers = producerThreadCount * iterations := by
    simp [tally, producers, taken]
  obtain ⟨values, _, produced, _, consumed⟩ := conserved
  rw [nothing, nothingInFlight, all, Multiset.coe_nil, add_zero, add_zero] at values
  have sizes := congrArg Multiset.card values
  rw [Multiset.coe_card, card_issued] at sizes
  rw [all] at produced
  exact ⟨values, produced, by omega⟩

theorem invariant_of_reachable (fits : producerThreadCount * iterations < 2 ^ 31)
    {state : State producerThreadCount consumerThreadCount}
    (reach : Reachable (step iterations) initial state) :
    Conserved iterations state ∧ Ordered state := by
  refine @Reachable.invariant _ _ _ (fun state => Conserved iterations state ∧ Ordered state) _ _
    reach ⟨conserved_initial, ordered_initial⟩ ?_
  rintro before choice after ⟨conserved, ordered⟩ taken
  exact ⟨conserved.step fits (does_of_step taken), ordered.step (does_of_step taken)⟩

/-- In every state of every run of the test no value is lost or duplicated, and once all consumers
have returned each value was popped exactly once and both counters say so. -/
theorem reachable_drained (consumers_pos : 0 < consumerThreadCount)
    (fits : producerThreadCount * iterations < 2 ^ 31)
    {state : State producerThreadCount consumerThreadCount}
    (reach : Reachable (step iterations) initial state) :
    (state.popped ++ state.queue).Nodup ∧
      (∀ value ∈ state.popped ++ state.queue, 1 ≤ value ∧ value ≤ state.producerCount) ∧
        ((∀ thread, state.consumers thread = .returned) →
          state.queue = [] ∧ state.popped.length = producerThreadCount * iterations ∧
            (∀ value : Int, 1 ≤ value → value ≤ (producerThreadCount * iterations : Nat) →
              state.popped.count value = 1) ∧
              state.producerCount = (producerThreadCount * iterations : Nat) ∧
                state.consumerCount = (producerThreadCount * iterations : Nat)) := by
  obtain ⟨conserved, ordered⟩ := invariant_of_reachable fits reach
  have among := conserved.popped_append_queue_le
  refine ⟨Multiset.coe_nodup.mp (Multiset.nodup_of_le among (nodup_issued _)), ?_, ?_⟩
  · intro value member
    rw [conserved.produced]
    exact mem_issued.mp (Multiset.mem_of_le among (Multiset.mem_coe.mpr member))
  · intro consumers
    have returned := consumers ⟨0, consumers_pos⟩
    have stored := ordered.seen _ (by rw [returned]; rfl)
    have nothing := ordered.drained _ returned
    obtain ⟨values, produced, consumed⟩ :=
      conserved.final nothing (ordered.stored stored) consumers
    refine ⟨nothing, ?_, ?_, produced, consumed⟩
    · rw [← Multiset.coe_card, values, card_issued]
    · intro value low high
      rw [← Multiset.coe_count, values]
      exact Multiset.count_eq_one_of_mem (nodup_issued _) (mem_issued.mpr ⟨low, high⟩)

/-- One value and two consumers, of which the second leaves while the first has yet to count. -/
theorem reachable_drained_one_value :
    ∃ schedule state, run (step 1) (initial : State 1 2) schedule = some state ∧
      (∀ thread, state.consumers thread = .returned) ∧ state.queue = [] ∧
        state.popped.count 1 = 1 ∧ state.producerCount = 1 ∧ state.consumerCount = 1 := by
  let schedule : List (Choice 1 2) :=
    [.main, .main, .main, .main, .main, .consumer 0, .consumer 0, .producer 0 false,
      .producer 0 false, .producer 0 true, .producer 0 false, .consumer 1, .main, .main,
      .consumer 0, .consumer 0, .consumer 1, .consumer 1, .consumer 1, .consumer 0, .consumer 0]
  have enabled : (run (step 1) (initial : State 1 2) schedule).isSome := by
    decide
  have returned : ∀ thread,
      ((run (step 1) (initial : State 1 2) schedule).get enabled).consumers thread =
        .returned := by
    intro thread
    match thread with
    | 0 => rfl
    | 1 => rfl
  obtain ⟨_, _, drained⟩ := @reachable_drained 1 2 1 (by decide) (by decide) _
    (Reachable.of_isSome schedule enabled)
  obtain ⟨nothing, _, once, produced, consumed⟩ := drained returned
  exact ⟨schedule, _, (Option.some_get enabled).symm, returned, nothing,
    once 1 (by decide) (by decide), produced, consumed⟩

end Lockfree
end BoostTest
