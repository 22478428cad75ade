import BoostTest.Lib.Potential
import BoostTest.Lib.Threads
import BoostTest.Queue.Sequential

/-!
# Threads that produce and threads that consume

What the message queues are for: some threads enqueue given messages, one after the other, and the
others call `dequeue` a given number of times, both by the member functions without `wait_time`,
whose waits of 1024 hours are taken not to end by the timeout.  A client puts such threads on top of
the system of a queue.  A ledger says of a queue how far its calls have come with their messages;
where its steps keep the accounts, messages and requests alone decide which threads get through.
-/

namespace BoostTest

open Function

/-- What is left of the loop of a thread. -/
inductive Work (α : Type*) where
  /-- The messages still to be enqueued. -/
  | produce (values : List α)
  /-- The number of `dequeue` calls still to be made. -/
  | consume (number : Nat)
  deriving DecidableEq, Repr

namespace Work

variable {α : Type*}

/-- The `enqueue` calls left. -/
def messages : Work α → Nat
  | produce values => values.length
  | consume _ => 0

/-- The `dequeue` calls left. -/
def requests : Work α → Nat
  | produce _ => 0
  | consume number => number

/-- The next call, and what is left after it. -/
def next? : Work α → Option (Call α × Work α)
  | produce (value :: values) => some (.enqueue value, .produce values)
  | consume (number + 1) => some (.dequeue, .consume number)
  | _ => none

/-- What making the next call takes off the work. -/
theorem cases_of_next? {work rest : Work α} {call : Call α}
    (next : work.next? = some (call, rest)) :
    (∃ value, call = .enqueue value ∧ work.messages = rest.messages + 1 ∧ work.requests = 0 ∧
        rest.requests = 0) ∨
      call = .dequeue ∧ work.requests = rest.requests + 1 ∧ work.messages = 0 ∧
        rest.messages = 0 := by
  cases work with
  | produce values =>
      cases values with
      | nil => cases next
      | cons value values =>
          cases next
          exact .inl ⟨value, rfl, rfl, rfl, rfl⟩
  | consume number =>
      cases number with
      | zero => cases next
      | succ number =>
          cases next
          exact .inr ⟨rfl, rfl, rfl, rfl⟩

/-- Work with no next call is done. -/
theorem next?_eq_none {work : Work α} :
    work.next? = none ↔ work.messages = 0 ∧ work.requests = 0 := by
  cases work with
  | produce values => cases values <;> simp [next?, messages, requests]
  | consume number => cases number <;> simp [next?, messages, requests]

end Work

/-- The system of a queue and what its threads have still to do. -/
structure Client (Thread System α : Type*) where
  system : System
  work : Thread → Work α

namespace Client

variable {Thread System Action α : Type*} [DecidableEq Thread]

/-- A thread makes its next call, or goes on with the call it is in. -/
def step (base : System → Thread × Action → Option System) (makes : Call α → Action)
    (goesOn : Action → Bool) (client : Client Thread System α) :
    Thread × Option Action → Option (Client Thread System α)
  | (thread, none) =>
      match (client.work thread).next? with
      | some (call, rest) =>
          (base client.system (thread, makes call)).map fun system =>
            { system, work := update client.work thread rest }
      | none => none
  | (thread, some action) =>
      if goesOn action then
        (base client.system (thread, action)).map fun system => { client with system }
      else none

variable {base : System → Thread × Action → Option System} {makes : Call α → Action}
  {goesOn : Action → Bool} {before after : Client Thread System α}

theorem cases_of_step {choice : Thread × Option Action}
    (taken : step base makes goesOn before choice = some after) :
    (∃ call rest, choice.2 = none ∧ (before.work choice.1).next? = some (call, rest) ∧
        base before.system (choice.1, makes call) = some after.system ∧
          after.work = update before.work choice.1 rest) ∨
      ∃ action, choice.2 = some action ∧ goesOn action = true ∧
        base before.system (choice.1, action) = some after.system ∧ after.work = before.work := by
  obtain ⟨thread, choice⟩ := choice
  cases choice with
  | none =>
      simp only [step] at taken
      split at taken
      case h_1 call rest next =>
        obtain ⟨system, reached, rfl⟩ := Option.map_eq_some_iff.mp taken
        exact .inl ⟨call, rest, rfl, next, reached, rfl⟩
      case h_2 => cases taken
  | some action =>
      simp only [step] at taken
      split at taken
      case isTrue allowed =>
        obtain ⟨system, reached, rfl⟩ := Option.map_eq_some_iff.mp taken
        exact .inr ⟨action, rfl, allowed, reached, rfl⟩
      case isFalse => cases taken

/-- A run of a client is a run of its queue, with no calls but those of `enqueue` and `dequeue`. -/
theorem exists_run {schedule : List (Thread × Option Action)}
    (execution : Execution.run (step base makes goesOn) before schedule = some after) :
    ∃ actions, Execution.run base before.system actions = some after.system ∧
      ∀ choice ∈ actions, (∃ value, choice.2 = makes (.enqueue value)) ∨
        choice.2 = makes .dequeue ∨ goesOn choice.2 = true := by
  induction schedule generalizing before with
  | nil =>
      obtain rfl : before = after := by simpa using execution
      exact ⟨[], rfl, by simp⟩
  | cons choice schedule induction =>
      obtain ⟨next, first, rest⟩ := Option.bind_eq_some_iff.mp execution
      obtain ⟨actions, continued, each⟩ := induction rest
      obtain ⟨action, moved, isAllowed⟩ : ∃ action,
          base before.system (choice.1, action) = some next.system ∧
            ((∃ value, action = makes (.enqueue value)) ∨ action = makes .dequeue ∨
              goesOn action = true) := by
        rcases cases_of_step first with ⟨call, left, _, work, moved, _⟩ |
          ⟨action, _, allowed, moved, _⟩
        · refine ⟨makes call, moved, ?_⟩
          rcases Work.cases_of_next? work with ⟨value, rfl, _⟩ | ⟨rfl, _⟩
          · exact .inl ⟨value, rfl⟩
          · exact .inr (.inl rfl)
        · exact ⟨action, moved, .inr (.inr allowed)⟩
      refine ⟨(choice.1, action) :: actions, ?_, ?_⟩
      · rw [Execution.run_cons, moved]
        exact continued
      · rintro other (_ | ⟨_, member⟩)
        · exact isAllowed
        · exact each other member

/-- The calls all threads have still to make. -/
def callsLeft [Fintype Thread] (work : Thread → Work α) : Nat :=
  ∑ thread, ((work thread).messages + (work thread).requests)

end Client

section Counting

variable {Thread : Type*} [Fintype Thread]

/-- A total changes by the term of the one thread that moves. -/
theorem sum_of_one_moved [DecidableEq Thread] {before after : Thread → Nat} (thread : Thread)
    (others : ∀ other, other ≠ thread → after other = before other) :
    ∑ other, after other + before thread = ∑ other, before other + after thread := by
  have moved : after = update before thread (after thread) := by
    ext other
    by_cases same : other = thread
    · rw [same, update_self]
    · rw [update_of_ne same, others other same]
  have exchanged := tally_update id before thread (after thread)
  rw [← moved] at exchanged
  exact exchanged

/-- Where each thread is through, or waits for room in a full queue, or for a message in an empty
one, all of them are through exactly if the messages are enough for the requests and what remains
of them fits into the queue. -/
theorem all_through_iff {held room messages requests : Nat} {toPush toPop : Thread → Nat}
    (balance : held + ∑ thread, toPush thread + requests = messages + ∑ thread, toPop thread)
    (room_pos : 0 < room) (bounded : held ≤ room)
    (each : ∀ thread, toPush thread = 0 ∧ toPop thread = 0 ∨
      0 < toPush thread ∧ toPop thread = 0 ∧ held = room ∨
        toPush thread = 0 ∧ 0 < toPop thread ∧ held = 0) :
    (∀ thread, toPush thread = 0 ∧ toPop thread = 0) ↔
      requests ≤ messages ∧ messages ≤ requests + room := by
  constructor
  · intro through
    rw [Finset.sum_eq_zero fun thread _ => (through thread).1,
      Finset.sum_eq_zero fun thread _ => (through thread).2] at balance
    omega
  · rintro ⟨enough, fits⟩ thread
    rcases each thread with through | ⟨waits, _, isFull⟩ | ⟨_, waits, isEmpty⟩
    · exact through
    · -- nobody waits for a message in a full queue
      have noPop : ∑ other, toPop other = 0 := Finset.sum_eq_zero fun other _ => by
        rcases each other with ⟨_, zero⟩ | ⟨_, zero, _⟩ | ⟨_, _, isEmpty⟩
        · exact zero
        · exact zero
        · omega
      have least := Finset.single_le_sum (fun other _ => Nat.zero_le (toPush other))
        (Finset.mem_univ thread)
      omega
    · have noPush : ∑ other, toPush other = 0 := Finset.sum_eq_zero fun other _ => by
        rcases each other with ⟨zero, _⟩ | ⟨_, _, isFull⟩ | ⟨zero, _, _⟩
        · exact zero
        · omega
        · exact zero
      have least := Finset.single_le_sum (fun other _ => Nat.zero_le (toPop other))
        (Finset.mem_univ thread)
      omega

/-- A call made is one call less to make. -/
theorem callsLeft_update {α : Type*} [DecidableEq Thread] {work : Thread → Work α} {thread : Thread}
    {call : Call α} {rest : Work α} (next : (work thread).next? = some (call, rest)) :
    Client.callsLeft work = Client.callsLeft (update work thread rest) + 1 := by
  have moved := tally_update (fun left : Work α => left.messages + left.requests) work thread rest
  change Client.callsLeft (update work thread rest) + ((work thread).messages +
    (work thread).requests) = Client.callsLeft work + (rest.messages + rest.requests) at moved
  rcases Work.cases_of_next? next with ⟨value, _, left, own, ownLeft⟩ | ⟨_, left, own, ownLeft⟩ <;>
    omega

end Counting

section Effort

variable {Thread System Action α : Type*} [Fintype Thread] [DecidableEq Thread]
  {base : System → Thread × Action → Option System} {makes : Call α → Action}
  {goesOn : Action → Bool} {effort : System → Nat} {perCall : Nat} {charge : Option Action → Nat}
  (calls : ∀ before after thread call, (∃ value, call = .enqueue value) ∨ call = .dequeue →
    base before (thread, makes call) = some after → effort after ≤ perCall + effort before)
  (continues : ∀ before after thread action, goesOn action = true →
    base before (thread, action) = some after →
      1 + effort after ≤ charge (some action) + effort before)

include calls continues

/-- A step of a client is paid for by a call made, by a charge or by the fall of the effort. -/
theorem Client.step_spends {before after : Client Thread System α}
    {choice : Thread × Option Action}
    (taken : step base makes goesOn before choice = some after) :
    1 + ((perCall + 1) * callsLeft after.work + effort after.system) ≤
      charge choice.2 + ((perCall + 1) * callsLeft before.work + effort before.system) := by
  rcases cases_of_step taken with ⟨call, rest, _, next, moved, work⟩ |
    ⟨action, isAction, allowed, moved, work⟩
  · have fewer := callsLeft_update next
    have isCall : (∃ value, call = .enqueue value) ∨ call = .dequeue :=
      (Work.cases_of_next? next).imp (fun ⟨value, isEnqueue, _⟩ => ⟨value, isEnqueue⟩) And.left
    have grows := calls before.system after.system choice.1 call isCall moved
    rw [work, fewer, Nat.mul_succ]
    omega
  · have falls := continues before.system after.system choice.1 action allowed moved
    rw [work, isAction]
    omega

/-- Where the effort of a queue grows by `perCall` with a call at most and falls with every other
step that is not charged, the steps of a client are bounded by its calls and the charges. -/
theorem Client.length_le {schedule : List (Thread × Option Action)}
    {initial final : Client Thread System α}
    (execution : Execution.run (step base makes goesOn) initial schedule = some final) :
    schedule.length ≤ (perCall + 1) * callsLeft initial.work + effort initial.system +
      (schedule.map fun choice => charge choice.2).sum := by
  have bound := Execution.total_spends_le (fun _ => True)
    (fun _ _ _ _ taken => ⟨trivial, Client.step_spends calls continues taken⟩) trivial execution
  rw [Execution.total_one execution,
    Execution.total_eq_sum (fun choice => charge choice.2) execution] at bound
  omega

end Effort

/-- How far the calls of a queue have come with their messages. -/
structure Ledger (Shared Position : Type*) where
  /-- The number of messages in the queue. -/
  held : Shared → Nat
  /-- The messages a call has still to push. -/
  waitsToPush : Position → Nat
  /-- The messages a call has still to pop. -/
  waitsToPop : Position → Nat
  /-- Where the calls of a client can be. -/
  usual : Position → Prop

namespace Ledger

open Threads

variable {Thread Shared Position Event Action α : Type*} (ledger : Ledger Shared Position)

/-- What a step does to the messages, if it is the start of `pushes` calls of `enqueue` and of
`pops` calls of `dequeue`. -/
structure Moves (shared : Shared) (position : Position) (effect : Effect Shared Position Event)
    (pushes pops : Nat) : Prop where
  balance :
    ledger.held effect.shared + ledger.waitsToPush effect.position + ledger.waitsToPop position +
        pops =
      ledger.held shared + ledger.waitsToPush position + pushes + ledger.waitsToPop effect.position
  pushSide : ledger.waitsToPush effect.position ≤ ledger.waitsToPush position + pushes
  popSide : ledger.waitsToPop effect.position ≤ ledger.waitsToPop position + pops
  usual : ledger.usual effect.position
  others : ∀ other, ledger.waitsToPush (effect.others other) = ledger.waitsToPush other ∧
    ledger.waitsToPop (effect.others other) = ledger.waitsToPop other ∧
      (ledger.usual other → ledger.usual (effect.others other))

/-- The messages a thread has still to push. -/
def toPush (client : Client Thread (System Thread Shared Position Event) α)
    (thread : Thread) : Nat :=
  (client.work thread).messages + ledger.waitsToPush (client.system.position thread)

/-- The messages a thread has still to pop. -/
def toPop (client : Client Thread (System Thread Shared Position Event) α)
    (thread : Thread) : Nat :=
  (client.work thread).requests + ledger.waitsToPop (client.system.position thread)

variable [Fintype Thread]

/-- The accounts of a client with `messages` to enqueue and `requests` to dequeue in all. -/
structure Accounted (messages requests : Nat)
    (client : Client Thread (System Thread Shared Position Event) α) : Prop where
  usual : ∀ thread, ledger.usual (client.system.position thread)
  placed : ∀ thread,
    (ledger.waitsToPush (client.system.position thread) = 0 ∨ (client.work thread).requests = 0) ∧
      (ledger.waitsToPop (client.system.position thread) = 0 ∨ (client.work thread).messages = 0)
  balance :
    ledger.held client.system.shared + ∑ thread, ledger.toPush client thread + requests =
      messages + ∑ thread, ledger.toPop client thread

variable {ledger} {messages requests : Nat}
  {before after : Client Thread (System Thread Shared Position Event) α}

/-- A client that has not made a call yet. -/
theorem accounted_initial (client : Client Thread (System Thread Shared Position Event) α)
    (nothing : ledger.held client.system.shared = 0)
    (idle : ∀ thread, ledger.usual (client.system.position thread) ∧
      ledger.waitsToPush (client.system.position thread) = 0 ∧
        ledger.waitsToPop (client.system.position thread) = 0) :
    ledger.Accounted (∑ thread, (client.work thread).messages)
      (∑ thread, (client.work thread).requests) client where
  usual thread := (idle thread).1
  placed thread := ⟨.inl (idle thread).2.1, .inl (idle thread).2.2⟩
  balance := by simp only [toPush, toPop, idle, nothing, Nat.zero_add, Nat.add_zero]

variable [DecidableEq Thread]

/-- A step that moves messages as the work left says keeps the accounts. -/
theorem Accounted.of_moves (accounted : ledger.Accounted messages requests before)
    {thread : Thread} {effect : Effect Shared Position Event} {pushes pops : Nat} {rest : Work α}
    (moves : ledger.Moves before.system.shared (before.system.position thread) effect pushes pops)
    (messagesLeft : (before.work thread).messages = rest.messages + pushes)
    (requestsLeft : (before.work thread).requests = rest.requests + pops)
    (enqueues : pushes = 0 ∨ rest.requests = 0) (dequeues : pops = 0 ∨ rest.messages = 0) :
    ledger.Accounted messages requests
      { system := before.system.apply thread effect, work := update before.work thread rest } := by
  obtain ⟨moved, pushSide, popSide, usual, others⟩ := moves
  have placed := accounted.placed thread
  have balance := accounted.balance
  have pushed := @sum_of_one_moved Thread _ _ (ledger.toPush before) (ledger.toPush
    { system := before.system.apply thread effect, work := update before.work thread rest })
    thread fun other different => by
      simp only [toPush, update_of_ne different, System.apply_position_other _ _ _ different,
        (others _).1]
  have popped := @sum_of_one_moved Thread _ _ (ledger.toPop before) (ledger.toPop
    { system := before.system.apply thread effect, work := update before.work thread rest })
    thread fun other different => by
      simp only [toPop, update_of_ne different, System.apply_position_other _ _ _ different,
        (others _).2.1]
  simp only [toPush, toPop, update_self, System.apply_position_self] at pushed popped balance
  refine ⟨fun other => ?_, fun other => ?_, ?_⟩
  · refine before.system.apply_position_induction thread effect
      (fun _ position => ledger.usual position) usual (fun other _ => ?_) other
    exact (others _).2.2 (accounted.usual other)
  · by_cases same : other = thread
    · subst same
      simp only [update_self, System.apply_position_self]
      omega
    · simp only [update_of_ne same, System.apply_position_other _ _ _ same, others]
      exact accounted.placed other
  · simp only [toPush, toPop, System.apply_shared]
    omega

/-- A step of a client keeps the accounts if every step of its threads moves messages as it should:
the calls start to push or to pop one, and nothing else starts to. -/
theorem Accounted.step
    {act : Thread → Shared → (Thread → Position) → Action → Option (Effect Shared Position Event)}
    {makes : Call α → Action} {goesOn : Action → Bool} {choice : Thread × Option Action}
    (accounted : ledger.Accounted messages requests before)
    (enqueues : ∀ value effect, act choice.1 before.system.shared before.system.position
        (makes (.enqueue value)) = some effect →
      ledger.Moves before.system.shared (before.system.position choice.1) effect 1 0)
    (dequeues : ∀ effect, act choice.1 before.system.shared before.system.position
        (makes .dequeue) = some effect →
      ledger.Moves before.system.shared (before.system.position choice.1) effect 0 1)
    (continues : ∀ action effect, goesOn action = true →
      act choice.1 before.system.shared before.system.position action = some effect →
        ledger.Moves before.system.shared (before.system.position choice.1) effect 0 0)
    (taken : Client.step (Threads.step act) makes goesOn before choice = some after) :
    ledger.Accounted messages requests after := by
  obtain ⟨system, work⟩ := after
  rcases Client.cases_of_step taken with ⟨call, rest, _, next, moved, rfl⟩ |
    ⟨action, _, allowed, moved, rfl⟩
  · obtain ⟨effect, enabled, rfl⟩ := Threads.step_eq_some.mp moved
    rcases Work.cases_of_next? next with ⟨value, rfl, left, own, ownLeft⟩ |
      ⟨rfl, left, own, ownLeft⟩
    · exact accounted.of_moves (enqueues value effect enabled) left (own.trans ownLeft.symm)
        (.inr ownLeft) (.inl rfl)
    · exact accounted.of_moves (dequeues effect enabled) (own.trans ownLeft.symm) left (.inl rfl)
        (.inr ownLeft)
  · obtain ⟨effect, enabled, rfl⟩ := Threads.step_eq_some.mp moved
    have moves := continues action effect allowed enabled
    have still := @Accounted.of_moves _ _ _ _ _ _ _ _ _ _ _ accounted _ _ _ _
      (before.work choice.1) moves rfl rfl (.inl rfl) (.inl rfl)
    rwa [update_eq_self] at still

omit [DecidableEq Thread] in
/-- Where each thread has made all its calls, or waits for room in a full queue, or for a message in
an empty one, all of them have made their calls exactly if the messages are enough for the requests
and what is left over fits into the queue. -/
theorem Accounted.all_through_iff {idle : Position} {room : Nat}
    (accounted : ledger.Accounted messages requests before)
    (resting : ledger.waitsToPush idle = 0 ∧ ledger.waitsToPop idle = 0) (room_pos : 0 < room)
    (bounded : ledger.held before.system.shared ≤ room)
    (each : ∀ thread,
      before.system.position thread = idle ∧ (before.work thread).next? = none ∨
        0 < ledger.toPush before thread ∧ ledger.toPop before thread = 0 ∧
            ledger.held before.system.shared = room ∨
          ledger.toPush before thread = 0 ∧ 0 < ledger.toPop before thread ∧
            ledger.held before.system.shared = 0) :
    (∀ thread, before.system.position thread = idle ∧ (before.work thread).next? = none) ↔
      requests ≤ messages ∧ messages ≤ requests + room := by
  have nothing {thread : Thread}
      (done : before.system.position thread = idle ∧ (before.work thread).next? = none) :
      ledger.toPush before thread = 0 ∧ ledger.toPop before thread = 0 := by
    obtain ⟨noMessages, noRequests⟩ := Work.next?_eq_none.mp done.2
    rw [toPush, toPop, done.1, resting.1, resting.2, noMessages, noRequests]
    exact ⟨rfl, rfl⟩
  have left : (∀ thread, ledger.toPush before thread = 0 ∧ ledger.toPop before thread = 0) ↔
      requests ≤ messages ∧ messages ≤ requests + room :=
    BoostTest.all_through_iff accounted.balance room_pos bounded fun thread =>
      (each thread).imp_left nothing
  rw [← left]
  refine forall_congr' fun thread => ⟨nothing, fun ⟨noPush, noPop⟩ => ?_⟩
  rcases each thread with done | ⟨waits, _⟩ | ⟨_, waits, _⟩
  · exact done
  · exact absurd noPush waits.ne'
  · exact absurd noPop waits.ne'

end Ledger
end BoostTest
