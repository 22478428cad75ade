import BoostTest.Lib.Linearization
import BoostTest.Queue.CondiFifo
import BoostTest.Queue.SemTokens
import BoostTest.Queue.Sequential

/-!
# Both queues are linearizable

Whatever the interleaving, the calls of the threads take effect one after the other, each between
its start and its return, as the calls of one thread would.  For the condition-variable queue this
covers every call that returns, also those that return -1: such a call takes effect when it found
the loop guard true for the last time.  A semaphore queue may return -1 with room or messages left,
so there it covers the calls that do not give up.
-/

namespace BoostTest

open CallSequence Execution Linearization Threads

namespace Answer

variable {α : Type*}

/-- The call has returned, no exception has left it. -/
def returned : Answer α → Bool
  | enqueueThrew _ => false
  | dequeueThrew => false
  | _ => true

/-- The call has returned -1. -/
def gaveUp : Answer α → Bool
  | enqueue _ code => code == -1
  | dequeue code _ => code == -1
  | _ => false

/-- The call has returned something other than -1. -/
def completed (answer : Answer α) : Bool := answer.returned && !answer.gaveUp

end Answer

section Local

variable {Thread Shared Position Value α : Type*} [DecidableEq Thread]

/-- A queue read as a concurrent object: of the answers a thread has been given those count that
are `shown`, and what it is still owed depends on its position. -/
def queueObject (view : Shared → Value) (shown : Answer α → Bool)
    (owed : Position → List (Answer α) → Prop) :
    Object (Threads.System Thread Shared Position (Event Thread α)) Thread Value (Answer α) where
  value system := view system.shared
  given system thread := (Event.answers (Event.ofThread thread system.history)).filter shown
  owed system thread := owed (system.position thread)

/-- What the effect of one step asks of its label. -/
structure Labelled (view : Shared → Value) (shown : Answer α → Bool)
    (owed : Position → List (Answer α) → Prop)
    (call : Value → Call α → Option (Answer α × Value)) (thread : Thread) (shared : Shared)
    (position : Position) (effect : Threads.Effect Shared Position (Event Thread α)) : Prop where
  ownEvents : ∀ event ∈ effect.events, event.thread = thread
  others : ∀ other answers, owed (effect.others other) answers → owed other answers
  label : ∀ after, owed effect.position after →
    ∃ (label : Option (Call α × Answer α)) (before : List (Answer α)), owed position before ∧
      before ++ (label.map Prod.snd).toList =
        (Event.answers effect.events).filter shown ++ after ∧
      TakesEffect call (view shared)
        (label.map fun called => { thread, input := called.1, output := called.2 })
        (view effect.shared)

variable {view : Shared → Value} {shown : Answer α → Bool}
  {owed : Position → List (Answer α) → Prop}
  {call : Value → Call α → Option (Answer α × Value)}

/-- A step that can be labelled leaves the other threads what they were owed. -/
theorem Labelled.explains
    {system : Threads.System Thread Shared Position (Event Thread α)} {thread : Thread}
    {effect : Threads.Effect Shared Position (Event Thread α)}
    (labelled : Labelled view shown owed call thread system.shared (system.position thread)
      effect) :
    Explains (queueObject view shown owed) call system (system.apply thread effect) := by
  intro after fits
  have ownFits := fits thread
  simp only [queueObject, System.apply_position_self] at ownFits
  obtain ⟨label, before, beforeFits, accounts, takes⟩ := labelled.label (after thread) ownFits
  refine ⟨_, Function.update after thread before, takes, fun other => ?_⟩
  by_cases same : other = thread
  · subst same
    rw [Function.update_self]
    refine ⟨beforeFits, ?_⟩
    have ownLabel : ownOutputs other
        [label.map fun called => ({ thread := other, input := called.1, output := called.2 } :
          Point Thread (Call α) (Answer α))] = (label.map Prod.snd).toList := by
      cases label <;> simp [ownOutputs, List.reduceOption_cons_of_none]
    rw [ownLabel, List.append_assoc, accounts]
    simp only [queueObject, System.apply_history, Event.ofThread_append_self labelled.ownEvents,
      Event.answers_append, List.filter_append, List.append_assoc]
  · rw [Function.update_of_ne same]
    have otherFits := fits other
    simp only [queueObject, System.apply_position_other _ _ _ same] at otherFits
    refine ⟨labelled.others _ _ otherFits, ?_⟩
    have otherLabel : ownOutputs other
        [label.map fun called => ({ thread, input := called.1, output := called.2 } :
          Point Thread (Call α) (Answer α))] = [] := by
      cases label <;> simp [ownOutputs, List.reduceOption_cons_of_none, Ne.symm same]
    simp only [otherLabel, List.append_nil, queueObject, System.apply_history,
      Event.ofThread_append_of_ne same labelled.ownEvents]

end Local

variable {Thread C α : Type*} {width : Nat} [Sequence C α]

namespace ZenMessageQueueCondi

/-- The answers a thread may still be owed: a parked call may be one that is going to give up. -/
def Owed : Position α → List (Answer α) → Prop
  | .idle, owed => owed = []
  | .enqueueParked value, owed => owed = [] ∨ owed = [.enqueue value (-1)]
  | .enqueueWoken value bret, owed => owed = if bret then [] else [.enqueue value (-1)]
  | .enqueueNotifying value, owed => owed = [.enqueue value 0]
  | .dequeueParked, owed => owed = [] ∨ owed = [.dequeue (-1) none]
  | .dequeueWoken bret, owed => owed = if bret then [] else [.dequeue (-1) none]
  | .dequeueNotifying value, owed => owed = [.dequeue 0 (some value)]
  | .crashed, owed => owed = []

theorem exists_owed (position : Position α) : ∃ owed, Owed position owed := by
  cases position <;> simp [Owed]

theorem Owed.length_le {position : Position α} {owed : List (Answer α)}
    (fits : Owed position owed) : owed.length ≤ 1 := by
  cases position with
  | enqueueParked | dequeueParked => rcases fits with rfl | rfl <;> simp
  | enqueueWoken _ bret | dequeueWoken bret => subst fits; cases bret <;> simp
  | _ => subst fits; simp

theorem StartsEnqueue.owed {position : Position α} {value : α}
    (starts : StartsEnqueue position value) : Owed position [] := by
  rcases starts with rfl | rfl <;> rfl

theorem StartsDequeue.owed {position : Position α} (starts : StartsDequeue position) :
    Owed position [] := by
  rcases starts with rfl | rfl <;> rfl

/-- A notification only tells a parked call that it has not given up. -/
theorem Owed.of_notifyEnqueue {position : Position α} {owed : List (Answer α)}
    (fits : Owed (notifyEnqueue position) owed) : Owed position owed := by
  cases position with
  | enqueueParked value => exact .inl fits
  | _ => exact fits

theorem Owed.of_notifyDequeue {position : Position α} {owed : List (Answer α)}
    (fits : Owed (notifyDequeue position) owed) : Owed position owed := by
  cases position with
  | dequeueParked => exact .inl fits
  | _ => exact fits

/-- Every step can be labelled: a push or a pop takes effect in its critical section, and a call
parks with a label exactly where it is not going to test the loop guard again. -/
theorem Does.labelled {thread : Thread} {queue : Store width C} {position : Position α}
    {action : Action α} {effect : Effect Thread width C α}
    (does : Does thread queue position action effect) :
    Labelled id Answer.returned Owed call thread queue position effect where
  ownEvents := does.own
  others := by
    intro other answers fits
    cases does with
    | enqueueNotify => exact fits.of_notifyDequeue
    | dequeueNotify => exact fits.of_notifyEnqueue
    | _ => exact fits
  label := by
    intro after fits
    cases does with
    | enqueuePark value starts isFull =>
        rcases fits with rfl | rfl
        · exact ⟨none, [], starts.owed, rfl, .silent _⟩
        · refine ⟨some (.enqueue value, .enqueue value (-1)), [], starts.owed, rfl, .point _ ?_⟩
          simp [call, enqueue, isFull]
    | enqueueThrow value starts =>
        obtain rfl := fits
        exact ⟨none, [], starts.owed, rfl, .silent _⟩
    | enqueuePush value starts notFull =>
        obtain rfl := fits
        refine ⟨some (.enqueue value, .enqueue value 0), [], starts.owed, rfl, .point _ ?_⟩
        simp [call, enqueue, notFull]
    | dequeuePark starts isEmpty =>
        rcases fits with rfl | rfl
        · exact ⟨none, [], starts.owed, rfl, .silent _⟩
        · refine ⟨some (.dequeue, .dequeue (-1) none), [], starts.owed, rfl, .point _ ?_⟩
          simp [call, dequeue, isEmpty]
    | dequeueCrash starts =>
        obtain rfl := fits
        exact ⟨none, [], starts.owed, rfl, .silent _⟩
    | dequeueThrow starts =>
        obtain rfl := fits
        exact ⟨none, [], starts.owed, rfl, .silent _⟩
    | dequeuePop value shorter starts notEmpty done =>
        obtain rfl := fits
        refine ⟨some (.dequeue, .dequeue 0 (some value)), [], starts.owed, rfl, .point _ ?_⟩
        simp only [call, dequeue, id, if_neg notEmpty, done]
    | wakeEnqueue value bret parked =>
        subst parked
        refine ⟨none, after, ?_, (List.append_nil after), .silent _⟩
        cases bret with
        | true => exact .inl fits
        | false => exact .inr fits
    | wakeDequeue bret parked =>
        subst parked
        refine ⟨none, after, ?_, (List.append_nil after), .silent _⟩
        cases bret with
        | true => exact .inl fits
        | false => exact .inr fits
    | enqueueTimeout value expired =>
        obtain rfl := fits
        subst expired
        exact ⟨none, [.enqueue value (-1)], rfl, rfl, .silent _⟩
    | dequeueTimeout expired =>
        obtain rfl := fits
        subst expired
        exact ⟨none, [.dequeue (-1) none], rfl, rfl, .silent _⟩
    | enqueueNotify value owes =>
        obtain rfl := fits
        subst owes
        exact ⟨none, [.enqueue value 0], rfl, rfl, .silent _⟩
    | dequeueNotify value owes =>
        obtain rfl := fits
        subst owes
        exact ⟨none, [.dequeue 0 (some value)], rfl, rfl, .silent _⟩
    | clear idle =>
        obtain rfl := fits
        subst idle
        exact ⟨some (.clear, .clear), [], rfl, rfl, .point _ rfl⟩
    | query answer idle reads =>
        obtain rfl := fits
        subst idle
        rcases reads with rfl | rfl | rfl
        · exact ⟨some (.size, .size queue.size.toNat), [], rfl, rfl, .point _ rfl⟩
        · exact ⟨some (.empty, .empty queue.empty), [], rfl, rfl, .point _ rfl⟩
        · exact ⟨some (.full, .full queue.full), [], rfl, rfl, .point _ rfl⟩

variable [DecidableEq Thread]

theorem exists_linearizes {queueMaxSize : SizeT width} {schedule : List (Thread × Action α)}
    {final : System Thread width C α}
    (execution : run step (initial queueMaxSize) schedule = some final) :
    ∃ labels : List (Option (Point Thread (Call α) (Answer α))),
      Linearizes (queueObject id Answer.returned Owed) call step
        (initial queueMaxSize : System Thread width C α) schedule labels := by
  refine Linearization.exists_linearizes (fun _ => True) (fun _ _ => exists_owed _) ?_ trivial ?_
    execution
  · rintro before choice after - taken
    obtain ⟨effect, enabled, rfl⟩ := Threads.step_eq_some.mp taken
    exact ⟨trivial, (does_of_act enabled).labelled.explains⟩
  · exact fun thread => ⟨rfl, fun _ fits => fits⟩

end ZenMessageQueueCondi

namespace ZenMessageQueueSem

/-- The answers a thread may still be owed. -/
def Owed : Position α → List (Answer α) → Prop
  | .enqueuePosting value, owed => owed = [.enqueue value 0]
  | .dequeuePosting value, owed => owed = [.dequeue 0 (some value)]
  | _, owed => owed = []

theorem exists_owed (position : Position α) : ∃ owed, Owed position owed := by
  cases position <;> simp [Owed]

theorem Owed.length_le {position : Position α} {owed : List (Answer α)}
    (fits : Owed position owed) : owed.length ≤ 1 := by
  cases position <;> simp [Owed] at fits <;> simp [fits]

/-- Every step of a valid queue can be labelled, provided an `enqueue` that holds a token finds
room: a push or a pop takes effect in its critical section, as a call of the condition-variable
queue over the same data. -/
theorem Does.labelled {thread : Thread} {queue : Queue width C} {position : Position α}
    {action : Action α} {effect : Effect Thread width C α}
    (does : Does thread queue position action effect) (valid : queue.store.Valid)
    (room : isEnqueueHolding position = true →
      (queue.store.contents : List α).length < queue.store.queueMaxSize.toNat) :
    Labelled Queue.store Answer.completed Owed ZenMessageQueueCondi.call thread queue position
      effect where
  ownEvents := does.own
  others := by
    intro other answers fits
    rwa [does.alone] at fits
  label := by
    intro after fits
    cases does with
    | enqueuePush value =>
        obtain rfl := fits
        have notFull : queue.store.queueCurSize ≠ queue.store.queueMaxSize := by
          intro isFull
          have counted := valid.counted
          have below := room rfl
          rw [isFull] at counted
          omega
        refine ⟨some (.enqueue value, .enqueue value 0), [], rfl, rfl, .point _ ?_⟩
        simp [ZenMessageQueueCondi.call, ZenMessageQueueCondi.enqueue, notFull]
    | dequeuePop value shorter done =>
        obtain rfl := fits
        have notEmpty : queue.store.queueCurSize ≠ 0 := by
          intro isEmpty
          have counted := valid.counted
          rw [Store.contents_of_dequeueBody done, SizeT.eq_zero_iff.mp isEmpty] at counted
          simp at counted
        refine ⟨some (.dequeue, .dequeue 0 (some value)), [], rfl, rfl, .point _ ?_⟩
        simp only [ZenMessageQueueCondi.call, ZenMessageQueueCondi.dequeue, if_neg notEmpty, done]
    | enqueuePost value =>
        obtain rfl := fits
        exact ⟨none, [.enqueue value 0], rfl, rfl, .silent _⟩
    | dequeuePost value =>
        obtain rfl := fits
        exact ⟨none, [.dequeue 0 (some value)], rfl, rfl, .silent _⟩
    | clear =>
        obtain rfl := fits
        exact ⟨some (.clear, .clear), [], rfl, rfl, .point _ rfl⟩
    | query answer reads =>
        obtain rfl := fits
        rcases reads with ⟨rfl, rfl⟩ | ⟨rfl, rfl⟩ | ⟨rfl, rfl⟩
        · exact ⟨some (.size, .size queue.store.size.toNat), [], rfl, rfl, .point _ rfl⟩
        · exact ⟨some (.empty, .empty queue.store.empty), [], rfl, rfl, .point _ rfl⟩
        · exact ⟨some (.full, .full queue.store.full), [], rfl, rfl, .point _ rfl⟩
    | _ =>
        obtain rfl := fits
        exact ⟨none, [], rfl, rfl, .silent _⟩

variable [Fintype Thread] [DecidableEq Thread]

theorem exists_linearizes {queueMaxSize : SizeT width} {schedule : List (Thread × Action α)}
    {final : System Thread width C α}
    (execution : run step (initial queueMaxSize) schedule = some final) :
    ∃ labels : List (Option (Point Thread (Call α) (Answer α))),
      Linearizes (queueObject Queue.store Answer.completed Owed) ZenMessageQueueCondi.call step
        (initial queueMaxSize : System Thread width C α) schedule labels := by
  refine Linearization.exists_linearizes (Balanced queueMaxSize) (fun _ _ => exists_owed _) ?_
    (balanced_initial queueMaxSize) ?_ execution
  · rintro before choice after balanced taken
    have balancedAfter := balanced.step taken
    obtain ⟨effect, enabled, rfl⟩ := Threads.step_eq_some.mp taken
    have labelled := (does_of_act enabled).labelled balanced.valid (balanced.room choice.1)
    exact ⟨balancedAfter, labelled.explains⟩
  · exact fun thread => ⟨rfl, fun _ fits => fits⟩

end ZenMessageQueueSem
end BoostTest
