import BoostTest.Queue.Condi

/-!
# The condition-variable queue refines the bounded queue

In every interleaving the hand-kept counter is the length of the container, the container never
exceeds `queue_max_size_` and is never read while empty, and its history is a path of the abstract
bounded queue.
-/

namespace BoostTest
namespace ZenMessageQueueCondi

open Execution Threads

variable {Thread C α : Type*} {width : Nat}

/-- The value taken by a `dequeue` that has not returned it yet. -/
def undelivered : Position α → List α
  | .dequeueNotifying value => [value]
  | _ => []

/-- The value pushed by an `enqueue` that has not returned 0 yet. -/
def unreported : Position α → List α
  | .enqueueNotifying value => [value]
  | _ => []

@[simp]
theorem undelivered_notifyEnqueue (position : Position α) :
    undelivered (notifyEnqueue position) = undelivered position := by
  cases position <;> rfl

@[simp]
theorem undelivered_notifyDequeue (position : Position α) :
    undelivered (notifyDequeue position) = undelivered position := by
  cases position <;> rfl

@[simp]
theorem unreported_notifyEnqueue (position : Position α) :
    unreported (notifyEnqueue position) = unreported position := by
  cases position <;> rfl

@[simp]
theorem unreported_notifyDequeue (position : Position α) :
    unreported (notifyDequeue position) = unreported position := by
  cases position <;> rfl

variable [Sequence C α]

/-- Each step appends to the history of its own thread only. -/
theorem Does.own {thread : Thread} {queue : Store width C} {position : Position α}
    {action : Action α} {effect : Effect Thread width C α}
    (does : Does thread queue position action effect) :
    ∀ event ∈ effect.events, event.thread = thread := by
  cases does <;> simp [Event.thread]

/-- No notification changes what another thread still has to report. -/
theorem Does.unsettled_others {thread : Thread} {queue : Store width C} {position : Position α}
    {action : Action α} {effect : Effect Thread width C α}
    (does : Does thread queue position action effect) (other : Position α) :
    unreported (effect.others other) = unreported other ∧
      undelivered (effect.others other) = undelivered other := by
  cases does <;> simp

theorem StartsEnqueue.owes_nothing {position : Position α} {value : α}
    (starts : StartsEnqueue position value) :
    unreported position = [] ∧ undelivered position = [] := by
  rcases starts with rfl | rfl <;> exact ⟨rfl, rfl⟩

theorem StartsDequeue.owes_nothing {position : Position α} (starts : StartsDequeue position) :
    unreported position = [] ∧ undelivered position = [] := by
  rcases starts with rfl | rfl <;> exact ⟨rfl, rfl⟩

/-- A step keeps the stepping thread's own history in order. -/
theorem Does.settled {thread : Thread} {queue : Store width C} {position : Position α}
    {action : Action α} {effect : Effect Thread width C α}
    (does : Does thread queue position action effect) {own : List (Event Thread α)}
    (settled : Event.Settled own (unreported position) (undelivered position)) :
    Event.Settled (own ++ effect.events) (unreported effect.position)
      (undelivered effect.position) := by
  obtain ⟨pushed, popped⟩ := settled
  cases does with
  | enqueuePark value starts | enqueueThrow value starts | enqueuePush value starts =>
      obtain ⟨reported, delivered⟩ := starts.owes_nothing
      rw [reported] at pushed
      rw [delivered] at popped
      constructor <;> simp [pushed, popped, unreported, undelivered]
  | dequeuePark starts | dequeueCrash starts | dequeueThrow starts | dequeuePop _ _ starts =>
      obtain ⟨reported, delivered⟩ := starts.owes_nothing
      rw [reported] at pushed
      rw [delivered] at popped
      constructor <;> simp [pushed, popped, unreported, undelivered]
  | wakeEnqueue _ _ at_ | wakeDequeue _ at_ | enqueueTimeout _ at_ | dequeueTimeout at_
  | enqueueNotify _ at_ | dequeueNotify _ at_ | clear at_ =>
      subst at_
      constructor <;> simp [pushed, popped, unreported, undelivered]
  | query answer idle reads =>
      subst idle
      rcases reads with rfl | rfl | rfl <;>
        constructor <;> simp [pushed, popped, unreported, undelivered]

/-- The invariant of every interleaving. -/
structure Consistent [DecidableEq Thread] (queueMaxSize : SizeT width)
    (system : System Thread width C α) : Prop where
  sameMax : system.shared.queueMaxSize = queueMaxSize
  valid : system.shared.Valid
  refines :
    Fifo.Path queueMaxSize.toNat [] (Event.ops system.history) system.shared.contents
  safe : ∀ thread, system.position thread ≠ .crashed
  settled : ∀ thread, Event.Settled (Event.ofThread thread system.history)
    (unreported (system.position thread)) (undelivered (system.position thread))

theorem consistent_initial [DecidableEq Thread] (queueMaxSize : SizeT width) :
    Consistent queueMaxSize (initial queueMaxSize : System Thread width C α) where
  sameMax := rfl
  valid := .construct queueMaxSize
  refines := by
    rw [initial, Store.contents_construct]
    exact .nil
  safe _ := by simp [initial]
  settled _ := ⟨rfl, rfl⟩

/-- A critical section leaves the queue valid, with its bound, and is a step of the abstract
queue or none at all. -/
theorem Does.refines {thread : Thread} {queue : Store width C} {position : Position α}
    {action : Action α} {effect : Effect Thread width C α}
    (does : Does thread queue position action effect) (valid : queue.Valid)
    {ops : List (Fifo.Op α)}
    (path : Fifo.Path queue.queueMaxSize.toNat [] ops queue.contents) :
    effect.shared.queueMaxSize = queue.queueMaxSize ∧ effect.shared.Valid ∧
      Fifo.Path queue.queueMaxSize.toNat [] (ops ++ Event.ops effect.events)
        effect.shared.contents := by
  cases does with
  | enqueuePush value starts notFull =>
      have room := valid.room_of_ne notFull
      refine ⟨rfl, valid.enqueueBody room value, ?_⟩
      rw [Store.contents_enqueueBody]
      exact path.snoc (.push value room)
  | dequeuePop value after starts notEmpty done =>
      obtain ⟨sameMax, _⟩ := Store.counters_of_dequeueBody done
      refine ⟨sameMax, valid.dequeueBody done, ?_⟩
      rw [Store.contents_of_dequeueBody done] at path
      exact path.snoc (.pop value after.contents)
  | clear =>
      refine ⟨rfl, .clear queue, ?_⟩
      rw [Store.contents_clear]
      exact path.snoc (.clear queue.contents)
  | _ => exact ⟨rfl, valid, by simpa [Event.ops] using path⟩

/-- In a valid queue the loop guard of `dequeue` keeps every thread off the empty container. -/
theorem Does.safe {thread : Thread} {queue : Store width C} {position : Position α}
    {action : Action α} {effect : Effect Thread width C α}
    (does : Does thread queue position action effect) (valid : queue.Valid) :
    effect.position ≠ .crashed ∧ ∀ other, other ≠ .crashed → effect.others other ≠ .crashed := by
  cases does with
  | dequeueCrash starts notEmpty nothing => exact (valid.nonempty_of_ne_zero notEmpty nothing).elim
  | enqueueNotify => exact ⟨nofun, fun other running => by cases other <;> simp_all [notifyDequeue]⟩
  | dequeueNotify => exact ⟨nofun, fun other running => by cases other <;> simp_all [notifyEnqueue]⟩
  | _ => exact ⟨nofun, fun _ running => running⟩

theorem Consistent.step [DecidableEq Thread] {queueMaxSize : SizeT width}
    {before after : System Thread width C α} {choice : Thread × Action α}
    (consistent : Consistent queueMaxSize before)
    (taken : ZenMessageQueueCondi.step before choice = some after) :
    Consistent queueMaxSize after := by
  obtain ⟨effect, enabled, rfl⟩ := Threads.step_eq_some.mp taken
  obtain ⟨rfl, valid, path, safe, settled⟩ := consistent
  have does := does_of_act enabled
  obtain ⟨sameMax, validAfter, pathAfter⟩ := does.refines valid path
  obtain ⟨ownSafe, othersSafe⟩ := does.safe valid
  constructor
  case sameMax => exact sameMax
  case valid => exact validAfter
  case refines => simpa using pathAfter
  case safe =>
    exact before.apply_position_induction choice.1 effect (fun _ position => position ≠ .crashed)
      ownSafe fun other _ => othersSafe _ (safe other)
  case settled =>
    refine before.apply_position_induction choice.1 effect
      (fun thread position =>
        Event.Settled (Event.ofThread thread (before.history ++ effect.events))
          (unreported position) (undelivered position)) ?_ ?_
    · rw [Event.ofThread_append_self does.own]
      exact does.settled (settled choice.1)
    · intro other different
      obtain ⟨reported, delivered⟩ := does.unsettled_others (before.position other)
      rw [Event.ofThread_append_of_ne different does.own, reported, delivered]
      exact settled other

theorem consistent_of_reachable [DecidableEq Thread] {queueMaxSize : SizeT width}
    {system : System Thread width C α}
    (reach : Reachable ZenMessageQueueCondi.step (initial queueMaxSize) system) :
    Consistent queueMaxSize system :=
  reach.invariant (consistent_initial queueMaxSize) fun _ _ _ consistent => consistent.step

/-- In every reachable state the counter is the length of the container and within bounds, no
thread has touched an empty container, the values pushed are those removed followed by those still
queued, and each thread's pushes and pops are those its calls have returned or are about to. -/
theorem reachable_fifo [DecidableEq Thread] (queueMaxSize : SizeT width)
    {system : System Thread width C α}
    (reach : Reachable ZenMessageQueueCondi.step (initial queueMaxSize) system) :
    system.shared.queueCurSize.toNat = (system.shared.contents : List α).length ∧
      (system.shared.contents : List α).length ≤ queueMaxSize.toNat ∧
      (∀ thread, system.position thread ≠ .crashed) ∧
      Event.pushes system.history = Event.removals system.history ++ system.shared.contents ∧
      ∀ thread,
        Event.pops (Event.ofThread thread system.history) =
            Event.received (Event.ofThread thread system.history) ++
              undelivered (system.position thread) ∧
          Event.pushes (Event.ofThread thread system.history) =
            Event.accepted (Event.ofThread thread system.history) ++
              unreported (system.position thread) := by
  have consistent := consistent_of_reachable reach
  have bounded := consistent.refines.length_le (Nat.zero_le _)
  have conserved := consistent.refines.conserves
  rw [List.nil_append] at conserved
  exact ⟨consistent.valid.counted, bounded, consistent.safe, conserved,
    fun thread => ⟨(consistent.settled thread).popped, (consistent.settled thread).pushed⟩⟩

/-- One thread fills a queue of size one, a second one parks, is notified and takes the slot. -/
theorem reachable_fifo_handover :
    ∃ schedule, ∃ system : System (Fin 2) 32 (List Nat) Nat,
      run step (initial 1) schedule = some system ∧
        Event.pushes system.history = [7, 8] ∧ system.shared.messageQueue = [8] ∧
          Event.pushes system.history = Event.removals system.history ++ [8] := by
  let schedule : List (Fin 2 × Action Nat) :=
    [(0, .enqueue 7 false), (1, .enqueue 8 false), (0, .notify), (0, .dequeue false),
      (0, .notify), (1, .resume false)]
  have enabled : (run step (initial 1 : System (Fin 2) 32 (List Nat) Nat) schedule).isSome := by
    decide
  exact ⟨schedule, _, (Option.some_get enabled).symm, rfl, rfl,
    (reachable_fifo 1 (Reachable.of_isSome schedule enabled)).2.2.2.1⟩

end ZenMessageQueueCondi
end BoostTest
