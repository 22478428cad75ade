import BoostTest.Queue.Sem

/-!
# Token conservation of the semaphore queue

Every slot of the queue is a token of `sem_full_`, a message, or in the hands of a thread between
two steps; every message has a token of `sem_empty_` or a thread to answer for it.  Two things break
these balances for good, and the history counts both: a copy that throws, whose token is never
posted, and a `clear`, which removes messages and leaves the semaphores alone.
-/

namespace BoostTest
namespace ZenMessageQueueSem

open Execution Threads

variable {Thread C α : Type*} {width : Nat}

/-- An `enqueue` that holds a token and is not yet in the critical section. -/
def isEnqueueHolding : Position α → Bool
  | .enqueueHolding _ => true
  | _ => false

/-- An `enqueue` past the critical section that has not yet posted. -/
def isEnqueuePosting : Position α → Bool
  | .enqueuePosting _ => true
  | _ => false

/-- A `dequeue` that holds a token and is not yet in the critical section. -/
def isDequeueHolding : Position α → Bool
  | .dequeueHolding => true
  | _ => false

/-- A `dequeue` past the critical section that has not yet posted. -/
def isDequeuePosting : Position α → Bool
  | .dequeuePosting _ => true
  | _ => false

/-- A thread that has touched an empty container. -/
def isCrashed : Position α → Bool
  | .crashed => true
  | _ => false

/-- The value pushed by an `enqueue` that has not returned 0 yet. -/
def unreported : Position α → List α
  | .enqueuePosting value => [value]
  | _ => []

/-- The value taken by a `dequeue` that has not returned it yet. -/
def undelivered : Position α → List α
  | .dequeuePosting value => [value]
  | _ => []

/-- The number of `enqueue` calls an exception has left. -/
def failedEnqueues (history : List (Event Thread α)) : Nat :=
  (Event.answers history).countP Answer.isFailedEnqueue

/-- The number of `dequeue` calls an exception has left. -/
def failedDequeues (history : List (Event Thread α)) : Nat :=
  (Event.answers history).countP Answer.isFailedDequeue

/-- The number of messages `clear` calls have thrown away. -/
def discarded (history : List (Event Thread α)) : Nat := (Event.discards history).length

@[simp]
theorem failedEnqueues_append (front back : List (Event Thread α)) :
    failedEnqueues (front ++ back) = failedEnqueues front + failedEnqueues back := by
  simp [failedEnqueues]

@[simp]
theorem failedDequeues_append (front back : List (Event Thread α)) :
    failedDequeues (front ++ back) = failedDequeues front + failedDequeues back := by
  simp [failedDequeues]

@[simp]
theorem discarded_append (front back : List (Event Thread α)) :
    discarded (front ++ back) = discarded front + discarded back := by
  simp [discarded]

theorem count_eq_zero_of_idle [Fintype Thread] {position : Thread → Position α}
    (idle : ∀ thread, position thread = .idle) {test : Position α → Bool}
    (testIdle : test .idle = false) : count test position = 0 :=
  count_eq_zero_iff.mpr fun thread => by rw [idle thread, testIdle]

theorem count_isCrashed_eq_zero [Fintype Thread] {position : Thread → Position α}
    (safe : ∀ thread, position thread ≠ .crashed) : count isCrashed position = 0 := by
  refine count_eq_zero_iff.mpr fun thread => ?_
  have running := safe thread
  generalize position thread = here at running
  cases here <;> first | rfl | exact (running rfl).elim

variable [Sequence C α]

/-- Each step appends to the history of its own thread only. -/
theorem Does.own {thread : Thread} {queue : Queue width C} {position : Position α}
    {action : Action α} {effect : Effect Thread width C α}
    (does : Does thread queue position action effect) :
    ∀ event ∈ effect.events, event.thread = thread := by
  cases does <;> simp [Event.thread]

/-- No step moves another thread. -/
theorem Does.alone {thread : Thread} {queue : Queue width C} {position : Position α}
    {action : Action α} {effect : Effect Thread width C α}
    (does : Does thread queue position action effect) : effect.others = id := by
  cases does <;> rfl

/-- A step keeps the stepping thread's own history in order. -/
theorem Does.settled {thread : Thread} {queue : Queue width C} {position : Position α}
    {action : Action α} {effect : Effect Thread width C α}
    (does : Does thread queue position action effect) {own : List (Event Thread α)}
    (settled : Event.Settled own (unreported position) (undelivered position)) :
    Event.Settled (own ++ effect.events) (unreported effect.position)
      (undelivered effect.position) := by
  obtain ⟨pushed, popped⟩ := settled
  cases does with
  | query answer reads =>
      rcases reads with ⟨rfl, rfl⟩ | ⟨rfl, rfl⟩ | ⟨rfl, rfl⟩ <;>
        constructor <;> simp [pushed, popped, unreported, undelivered]
  | _ => constructor <;> simp [pushed, popped, unreported, undelivered]

/-- One step moves a slot between `sem_full_`, the container and the stepping thread, or loses it
to a failed copy or a `clear`. -/
theorem Does.slots {thread : Thread} {queue : Queue width C} {position : Position α}
    {action : Action α} {effect : Effect Thread width C α}
    (does : Does thread queue position action effect) :
    effect.shared.semFull + (isEnqueueHolding effect.position).toNat +
          (effect.shared.store.contents : List α).length +
        (isDequeuePosting effect.position).toNat + failedEnqueues effect.events +
      discarded effect.events =
    queue.semFull + (isEnqueueHolding position).toNat +
        (queue.store.contents : List α).length + (isDequeuePosting position).toNat := by
  cases does with
  | dequeuePop value after done =>
      have taken := Store.contents_of_dequeueBody done
      simp [isEnqueueHolding, isDequeuePosting, failedEnqueues, discarded, taken]
      omega
  | query answer reads =>
      rcases reads with ⟨rfl, rfl⟩ | ⟨rfl, rfl⟩ | ⟨rfl, rfl⟩ <;>
        simp [isEnqueueHolding, isDequeuePosting, failedEnqueues, discarded,
        Answer.isFailedEnqueue]
  | _ =>
      simp [isEnqueueHolding, isDequeuePosting, failedEnqueues, discarded,
        Answer.isFailedEnqueue, *]
      try omega

/-- One step moves a token between `sem_empty_` and the stepping thread along with a message, or
loses it to a failed copy, or its message to a `clear`. -/
theorem Does.messages {thread : Thread} {queue : Queue width C} {position : Position α}
    {action : Action α} {effect : Effect Thread width C α}
    (does : Does thread queue position action effect) :
    effect.shared.semEmpty + (isDequeueHolding effect.position).toNat +
          (isCrashed effect.position).toNat + (isEnqueuePosting effect.position).toNat +
        failedDequeues effect.events + (queue.store.contents : List α).length =
    queue.semEmpty + (isDequeueHolding position).toNat + (isCrashed position).toNat +
          (isEnqueuePosting position).toNat +
        (effect.shared.store.contents : List α).length +
      discarded effect.events := by
  cases does with
  | dequeuePop value after done =>
      have taken := Store.contents_of_dequeueBody done
      simp [isDequeueHolding, isEnqueuePosting, isCrashed, failedDequeues, discarded, taken]
      omega
  | query answer reads =>
      rcases reads with ⟨rfl, rfl⟩ | ⟨rfl, rfl⟩ | ⟨rfl, rfl⟩ <;>
        simp [isDequeueHolding, isEnqueuePosting, isCrashed, failedDequeues, discarded,
          Answer.isFailedDequeue]
  | _ =>
      simp [isDequeueHolding, isEnqueuePosting, isCrashed, failedDequeues, discarded,
        Answer.isFailedDequeue, *]
      try omega

/-- A critical section leaves the queue valid, with its bound, and is a step of the abstract
queue or none at all, provided an `enqueue` that holds a token finds room. -/
theorem Does.refines {thread : Thread} {queue : Queue width C} {position : Position α}
    {action : Action α} {effect : Effect Thread width C α}
    (does : Does thread queue position action effect) (valid : queue.store.Valid)
    (room : isEnqueueHolding position = true →
      (queue.store.contents : List α).length < queue.store.queueMaxSize.toNat)
    {ops : List (Fifo.Op α)}
    (path : Fifo.Path queue.store.queueMaxSize.toNat [] ops queue.store.contents) :
    effect.shared.store.queueMaxSize = queue.store.queueMaxSize ∧ effect.shared.store.Valid ∧
      Fifo.Path queue.store.queueMaxSize.toNat [] (ops ++ Event.ops effect.events)
        effect.shared.store.contents := by
  cases does with
  | enqueuePush value =>
      refine ⟨rfl, valid.enqueueBody (room rfl) value, ?_⟩
      rw [Store.contents_enqueueBody]
      exact path.snoc (.push value (room rfl))
  | dequeuePop value after done =>
      obtain ⟨sameMax, _⟩ := Store.counters_of_dequeueBody done
      refine ⟨sameMax, valid.dequeueBody done, ?_⟩
      rw [Store.contents_of_dequeueBody done] at path
      exact path.snoc (.pop value after.contents)
  | clear =>
      refine ⟨rfl, .clear queue.store, ?_⟩
      rw [Store.contents_clear]
      exact path.snoc (.clear queue.store.contents)
  | _ => exact ⟨rfl, valid, by simpa [Event.ops] using path⟩

variable [Fintype Thread] [DecidableEq Thread]

/-- The invariant of every interleaving. -/
structure Balanced (queueMaxSize : SizeT width) (system : System Thread width C α) : Prop where
  sameMax : system.shared.store.queueMaxSize = queueMaxSize
  valid : system.shared.store.Valid
  refines :
    Fifo.Path queueMaxSize.toNat [] (Event.ops system.history) system.shared.store.contents
  settled : ∀ thread, Event.Settled (Event.ofThread thread system.history)
    (unreported (system.position thread)) (undelivered (system.position thread))
  /-- Where the slots of the queue are. -/
  slots :
    system.shared.semFull + count isEnqueueHolding system.position +
          (system.shared.store.contents : List α).length +
        count isDequeuePosting system.position + failedEnqueues system.history +
      discarded system.history = queueMaxSize.toNat
  /-- What answers for the messages ever counted by `sem_empty_`. -/
  messages :
    system.shared.semEmpty + count isDequeueHolding system.position +
          count isCrashed system.position + count isEnqueuePosting system.position +
        failedDequeues system.history =
      (system.shared.store.contents : List α).length + discarded system.history

theorem balanced_initial (queueMaxSize : SizeT width) :
    Balanced queueMaxSize (initial queueMaxSize : System Thread width C α) where
  sameMax := rfl
  valid := .construct queueMaxSize
  refines := by
    rw [initial, construct, Store.contents_construct]
    exact .nil
  settled _ := ⟨rfl, rfl⟩
  slots := by
    have nobody (test : Position α → Bool) (testIdle : test .idle = false) :
        count test (initial queueMaxSize : System Thread width C α).position = 0 :=
      count_eq_zero_of_idle (fun _ => rfl) testIdle
    rw [nobody isEnqueueHolding rfl, nobody isDequeuePosting rfl]
    simp [initial, construct, failedEnqueues, discarded]
  messages := by
    have nobody (test : Position α → Bool) (testIdle : test .idle = false) :
        count test (initial queueMaxSize : System Thread width C α).position = 0 :=
      count_eq_zero_of_idle (fun _ => rfl) testIdle
    rw [nobody isDequeueHolding rfl, nobody isCrashed rfl, nobody isEnqueuePosting rfl]
    simp [initial, construct, failedDequeues, discarded]

/-- An `enqueue` that holds a token of `sem_full_` has room for its message. -/
theorem Balanced.room {queueMaxSize : SizeT width} {system : System Thread width C α}
    (balanced : Balanced queueMaxSize system) (thread : Thread)
    (holding : isEnqueueHolding (system.position thread) = true) :
    (system.shared.store.contents : List α).length <
      system.shared.store.queueMaxSize.toNat := by
  have someone : 0 < count isEnqueueHolding system.position :=
    count_pos_iff.mpr ⟨thread, holding⟩
  have slots := balanced.slots
  rw [balanced.sameMax]
  omega

theorem Balanced.step {queueMaxSize : SizeT width} {before after : System Thread width C α}
    {choice : Thread × Action α} (balanced : Balanced queueMaxSize before)
    (taken : ZenMessageQueueSem.step before choice = some after) :
    Balanced queueMaxSize after := by
  obtain ⟨effect, enabled, rfl⟩ := Threads.step_eq_some.mp taken
  have does := does_of_act enabled
  have room := balanced.room choice.1
  obtain ⟨rfl, valid, path, settled, slots, messages⟩ := balanced
  obtain ⟨sameMax, validAfter, pathAfter⟩ := does.refines valid room path
  have enqueueHolding := before.count_apply choice.1 effect does.alone isEnqueueHolding
  have enqueuePosting := before.count_apply choice.1 effect does.alone isEnqueuePosting
  have dequeueHolding := before.count_apply choice.1 effect does.alone isDequeueHolding
  have dequeuePosting := before.count_apply choice.1 effect does.alone isDequeuePosting
  have crashed := before.count_apply choice.1 effect does.alone isCrashed
  have slotsMoved := does.slots
  have messagesMoved := does.messages
  constructor
  case sameMax => exact sameMax
  case valid => exact validAfter
  case refines => simpa using pathAfter
  case settled =>
    refine before.apply_position_induction choice.1 effect
      (fun thread position =>
        Event.Settled (Event.ofThread thread (before.history ++ effect.events))
          (unreported position) (undelivered position)) ?_ ?_
    · rw [Event.ofThread_append_self does.own]
      exact does.settled (settled choice.1)
    · intro other different
      rw [Event.ofThread_append_of_ne different does.own, does.alone]
      exact settled other
  case slots =>
    rw [System.apply_shared, System.apply_history, failedEnqueues_append, discarded_append]
    omega
  case messages =>
    rw [System.apply_shared, System.apply_history, failedDequeues_append, discarded_append]
    omega

theorem balanced_of_reachable {queueMaxSize : SizeT width} {system : System Thread width C α}
    (reach : Reachable ZenMessageQueueSem.step (initial queueMaxSize) system) :
    Balanced queueMaxSize system :=
  reach.invariant (balanced_initial queueMaxSize) fun _ _ _ balanced => balanced.step

/-- A `clear` finds nothing to throw away. -/
def ClearFindsEmpty (system : System Thread width C α) (choice : Thread × Action α) : Prop :=
  choice.2 = .clear → system.shared.store.contents = ([] : List α)

omit [Fintype Thread] in
/-- A schedule without `clear` meets the condition on `clear`. -/
theorem throughout_clearFindsEmpty {initial : System Thread width C α}
    {schedule : List (Thread × Action α)}
    (noClear : ∀ choice ∈ schedule, choice.2 ≠ .clear) :
    Throughout step ClearFindsEmpty initial schedule := by
  intro front choice isPrefix _ _ isClear
  exact (noClear choice (isPrefix.subset (by simp)) isClear).elim

/-- The invariant of the runs in which no `clear` throws a message away. -/
structure Clean (queueMaxSize : SizeT width) (system : System Thread width C α) : Prop where
  balanced : Balanced queueMaxSize system
  kept : Event.discards system.history = []
  safe : ∀ thread, system.position thread ≠ .crashed

/-- Where nothing was thrown away, a `dequeue` that holds a token finds a message. -/
theorem Clean.nonempty {queueMaxSize : SizeT width} {system : System Thread width C α}
    (clean : Clean queueMaxSize system) (thread : Thread)
    (holding : system.position thread = .dequeueHolding) :
    (system.shared.store.contents : List α) ≠ [] := by
  have someone : 0 < count isDequeueHolding system.position :=
    count_pos_iff.mpr ⟨thread, by rw [holding]; rfl⟩
  have messages := clean.balanced.messages
  rw [discarded, clean.kept, List.length_nil] at messages
  intro nothing
  rw [nothing, List.length_nil] at messages
  omega

theorem Clean.step {queueMaxSize : SizeT width} {before after : System Thread width C α}
    {choice : Thread × Action α} (clean : Clean queueMaxSize before)
    (findsEmpty : ClearFindsEmpty before choice)
    (taken : ZenMessageQueueSem.step before choice = some after) : Clean queueMaxSize after := by
  have balanced := clean.balanced.step taken
  obtain ⟨effect, enabled, rfl⟩ := Threads.step_eq_some.mp taken
  obtain ⟨thread, action⟩ := choice
  have does := does_of_act enabled
  have nonempty := clean.nonempty thread
  have alone := does.alone
  have own : Event.discards effect.events = [] ∧ effect.position ≠ .crashed := by
    generalize before.position thread = position at does nonempty
    cases does with
    | clear => exact ⟨by simp [findsEmpty rfl], nofun⟩
    | dequeueCrash copyThrows nothing => exact (nonempty rfl nothing).elim
    | _ => exact ⟨by simp, nofun⟩
  refine ⟨balanced, by simp [clean.kept, own.1], ?_⟩
  refine before.apply_position_induction thread effect (fun _ position => position ≠ .crashed)
    own.2 fun other _ => ?_
  rw [alone]
  exact clean.safe other

theorem clean_initial (queueMaxSize : SizeT width) :
    Clean queueMaxSize (initial queueMaxSize : System Thread width C α) where
  balanced := balanced_initial queueMaxSize
  kept := rfl
  safe _ := nofun

theorem clean_of_clearFindsEmpty {queueMaxSize : SizeT width}
    {schedule : List (Thread × Action α)} {system : System Thread width C α}
    (findsEmpty : Throughout step ClearFindsEmpty (initial queueMaxSize : System Thread width C α)
      schedule)
    (execution : run step (initial queueMaxSize) schedule = some system) :
    Clean queueMaxSize system :=
  invariant_of_throughout (Clean queueMaxSize) (clean_initial queueMaxSize)
    (fun _ _ _ clean findsEmpty taken => clean.step findsEmpty taken) findsEmpty execution

omit [Fintype Thread] in
/-- Copies that do not throw leave no call failed. -/
theorem no_failures_of_copies {queueMaxSize : SizeT width} {schedule : List (Thread × Action α)}
    (copies : ∀ choice ∈ schedule, choice.2 ≠ .enter true) {system : System Thread width C α}
    (execution : run step (initial queueMaxSize) schedule = some system) :
    failedEnqueues system.history = 0 ∧ failedDequeues system.history = 0 := by
  have meets : Throughout step (fun _ choice => choice.2 ≠ .enter true)
      (initial queueMaxSize : System Thread width C α) schedule := throughout_of_forall copies
  refine invariant_of_throughout
    (fun system => failedEnqueues system.history = 0 ∧ failedDequeues system.history = 0)
    ⟨rfl, rfl⟩ ?_ meets execution
  rintro before ⟨thread, action⟩ after ⟨enqueues, dequeues⟩ copied taken
  obtain ⟨effect, enabled, rfl⟩ := Threads.step_eq_some.mp taken
  have does := does_of_act enabled
  have own : failedEnqueues effect.events = 0 ∧ failedDequeues effect.events = 0 := by
    generalize before.position thread = position at does
    cases does with
    | enqueueThrow | dequeueThrow => exact (copied rfl).elim
    | query answer reads =>
        rcases reads with ⟨rfl, rfl⟩ | ⟨rfl, rfl⟩ | ⟨rfl, rfl⟩ <;> exact ⟨rfl, rfl⟩
    | _ => exact ⟨rfl, rfl⟩
  simp [enqueues, dequeues, own]

/-- In every state of every run of `enqueue` and `dequeue` calls whose copies do not throw, the
tokens balance with the slots and the messages; so the queue is never popped while empty, never
exceeds its size, and what was pushed is what was popped followed by what is still queued. -/
theorem tokens_conserved (queueMaxSize : SizeT width) {schedule : List (Thread × Action α)}
    (plain : ∀ choice ∈ schedule, choice.2 ≠ .clear ∧ choice.2 ≠ .enter true)
    {system : System Thread width C α}
    (execution : run step (initial queueMaxSize) schedule = some system) :
    system.shared.semFull + count isEnqueueHolding system.position +
          (system.shared.store.contents : List α).length +
        count isDequeuePosting system.position = queueMaxSize.toNat ∧
      system.shared.semEmpty + count isDequeueHolding system.position +
          count isEnqueuePosting system.position =
        (system.shared.store.contents : List α).length ∧
      (system.shared.store.contents : List α).length =
        system.shared.store.queueCurSize.toNat ∧
      (system.shared.store.contents : List α).length ≤ queueMaxSize.toNat ∧
      (∀ thread, system.position thread ≠ .crashed) ∧
      Event.pushes system.history =
        Event.pops system.history ++ system.shared.store.contents ∧
      ∀ thread,
        Event.pops (Event.ofThread thread system.history) =
            Event.received (Event.ofThread thread system.history) ++
              undelivered (system.position thread) ∧
          Event.pushes (Event.ofThread thread system.history) =
            Event.accepted (Event.ofThread thread system.history) ++
              unreported (system.position thread) := by
  have findsEmpty : Throughout step ClearFindsEmpty
      (initial queueMaxSize : System Thread width C α) schedule :=
    throughout_clearFindsEmpty fun choice member => (plain choice member).1
  obtain ⟨balanced, kept, safe⟩ := clean_of_clearFindsEmpty findsEmpty execution
  obtain ⟨enqueues, dequeues⟩ :=
    no_failures_of_copies (fun choice member => (plain choice member).2) execution
  have nobody := count_isCrashed_eq_zero safe
  have slots := balanced.slots
  have messages := balanced.messages
  have conserved := balanced.refines.conserves
  rw [discarded, kept, List.length_nil] at slots messages
  have popped : Fifo.removed (Event.ops system.history) = Event.pops system.history :=
    Event.removals_eq_pops kept
  rw [List.nil_append, popped] at conserved
  exact ⟨by omega, by omega, balanced.valid.counted.symm, by omega, safe, conserved,
    fun thread => ⟨(balanced.settled thread).popped, (balanced.settled thread).pushed⟩⟩

/-- A producer between its push and its post, and a consumer still waiting. -/
theorem tokens_conserved_between_steps :
    ∃ schedule, ∃ system : System (Fin 2) 32 (List Nat) Nat,
      run step (initial 1) schedule = some system ∧ system.shared.store.messageQueue = [7] ∧
        count isEnqueuePosting system.position = 1 ∧
          Event.pushes system.history = Event.pops system.history ++ [7] := by
  let schedule : List (Fin 2 × Action Nat) :=
    [(0, .enqueue 7 true), (1, .dequeue false), (0, .enter false)]
  have enabled : (run step (initial 1 : System (Fin 2) 32 (List Nat) Nat) schedule).isSome := by
    decide
  have plain : ∀ choice ∈ schedule, choice.2 ≠ .clear ∧ choice.2 ≠ .enter true := by decide
  have execution := (Option.some_get enabled).symm
  exact ⟨schedule, _, execution, rfl, rfl, (tokens_conserved 1 plain execution).2.2.2.2.2.1⟩

end ZenMessageQueueSem
end BoostTest
