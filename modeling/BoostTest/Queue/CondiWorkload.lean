import BoostTest.Queue.CondiSettle
import BoostTest.Queue.Workload

/-!
# Producers and consumers at the condition-variable queue

However the threads of a client are scheduled, they come to a stop, and there the balance of the
messages decides: what the queue holds and what still has to be enqueued is what was to be produced
less what was consumed.  A producer left waiting means a full queue and no consumer left, a consumer
left waiting an empty one and no producer left.
-/

namespace BoostTest
namespace ZenMessageQueueCondi

open Execution Function Threads

variable {Thread C α : Type*} {width : Nat}

/-- An `enqueue` that has not pushed its message yet. -/
def waitsToPush : Position α → Nat
  | .enqueueParked _ => 1
  | .enqueueWoken _ _ => 1
  | _ => 0

/-- A `dequeue` that has not popped a message yet. -/
def waitsToPop : Position α → Nat
  | .dequeueParked => 1
  | .dequeueWoken _ => 1
  | _ => 0

/-- The wait of the thread has not timed out. -/
def isPatient : Position α → Bool
  | .enqueueWoken _ bret => bret
  | .dequeueWoken bret => bret
  | _ => true

/-- How far the calls have come with their messages. -/
def ledger [Sequence C α] : Ledger (Store width C) (Position α) where
  held queue := (queue.contents : List α).length
  waitsToPush := waitsToPush
  waitsToPop := waitsToPop
  usual position := isPatient position = true

/-- A call whose copy does not throw. -/
def makes : Call α → Action α
  | .enqueue value => .enqueue value false
  | .dequeue => .dequeue false
  | .clear => .clear
  | .size => .size
  | .empty => .empty
  | .full => .full

/-- The other actions of such a thread: those of a call whose copy does not throw and whose wait
does not time out, and between two calls it may ask for the state of the queue. -/
def goesOn : Action α → Bool
  | .resume copyThrows => !copyThrows
  | .notify => true
  | .endWait bret => bret
  | .size => true
  | .empty => true
  | .full => true
  | _ => false

section Moves

variable [Sequence C α] {thread : Thread} {queue : Store width C} {position : Position α}

/-- Testing the loop guard of `enqueue` for the first time or once more. -/
theorem moves_enqueueRound {value : α} {pushes : Nat}
    (once : waitsToPush position + pushes = 1) (notPop : waitsToPop position = 0) :
    ledger.Moves queue position (enqueueRound thread queue value false) pushes 0 := by
  by_cases isFull : queue.queueCurSize = queue.queueMaxSize
  · rw [enqueueRound, if_pos isFull]
    refine ⟨?_, once.ge, Nat.zero_le _, rfl, fun other => ⟨rfl, rfl, id⟩⟩
    change (queue.contents : List α).length + 1 + waitsToPop position + 0 =
      (queue.contents : List α).length + waitsToPush position + pushes + 0
    omega
  · rw [enqueueRound, if_neg isFull, if_neg Bool.false_ne_true]
    refine ⟨?_, Nat.zero_le _, Nat.zero_le _, rfl, fun other => ⟨rfl, rfl, id⟩⟩
    change ((queue.enqueueBody value).contents : List α).length + 0 + waitsToPop position + 0 =
      (queue.contents : List α).length + waitsToPush position + pushes + 0
    rw [Store.contents_enqueueBody, List.length_append, List.length_singleton]
    omega

/-- Testing the loop guard of `dequeue` for the first time or once more. -/
theorem moves_dequeueRound (valid : queue.Valid) {pops : Nat}
    (once : waitsToPop position + pops = 1) (notPush : waitsToPush position = 0) :
    ledger.Moves queue position (dequeueRound thread queue false) 0 pops := by
  by_cases isEmpty : queue.queueCurSize = 0
  · rw [dequeueRound, if_pos isEmpty]
    refine ⟨?_, Nat.zero_le _, once.ge, rfl, fun other => ⟨rfl, rfl, id⟩⟩
    change (queue.contents : List α).length + 0 + waitsToPop position + pops =
      (queue.contents : List α).length + waitsToPush position + 0 + 1
    omega
  · obtain ⟨value, rest, messages⟩ :=
      List.exists_cons_of_ne_nil (valid.nonempty_of_ne_zero isEmpty)
    obtain ⟨_, after, done, taken⟩ := Store.dequeueBody_of_cons messages
    simp only [dequeueRound, if_neg isEmpty, done]
    refine ⟨?_, Nat.zero_le _, Nat.zero_le _, rfl, fun other => ⟨rfl, rfl, id⟩⟩
    change (after.contents : List α).length + 0 + waitsToPop position + pops =
      (queue.contents : List α).length + waitsToPush position + 0 + 0
    rw [taken, messages, List.length_cons]
    omega

theorem waits_notifyEnqueue (other : Position α) :
    waitsToPush (notifyEnqueue other) = waitsToPush other ∧
      waitsToPop (notifyEnqueue other) = waitsToPop other ∧
        (isPatient other = true → isPatient (notifyEnqueue other) = true) := by
  cases other <;> exact ⟨rfl, rfl, fun patient => patient⟩

theorem waits_notifyDequeue (other : Position α) :
    waitsToPush (notifyDequeue other) = waitsToPush other ∧
      waitsToPop (notifyDequeue other) = waitsToPop other ∧
        (isPatient other = true → isPatient (notifyDequeue other) = true) := by
  cases other <;> exact ⟨rfl, rfl, fun patient => patient⟩

/-- A call of `enqueue`. -/
theorem moves_of_enqueue {value : α} {effect : Effect Thread width C α}
    (enabled : act thread queue position (.enqueue value false) = some effect) :
    ledger.Moves queue position effect 1 0 := by
  simp only [act] at enabled
  split at enabled <;> cases enabled
  case h_1.refl => exact moves_enqueueRound rfl rfl

/-- A call of `dequeue`. -/
theorem moves_of_dequeue (valid : queue.Valid) {effect : Effect Thread width C α}
    (enabled : act thread queue position (.dequeue false) = some effect) :
    ledger.Moves queue position effect 0 1 := by
  simp only [act] at enabled
  split at enabled <;> cases enabled
  case h_1.refl => exact moves_dequeueRound valid rfl rfl

/-- The further course of a call. -/
theorem moves_of_goesOn (valid : queue.Valid) (patient : isPatient position = true)
    {action : Action α} (allowed : goesOn action = true) {effect : Effect Thread width C α}
    (enabled : act thread queue position action = some effect) :
    ledger.Moves queue position effect 0 0 := by
  cases action with
  | resume copyThrows =>
      obtain rfl : copyThrows = false := by simpa [goesOn] using allowed
      simp only [act] at enabled
      split at enabled <;> cases enabled
      case h_1.refl value => exact moves_enqueueRound rfl rfl
      case h_2.refl value => cases patient
      case h_3.refl => exact moves_dequeueRound valid rfl rfl
      case h_4.refl => cases patient
  | notify =>
      simp only [act] at enabled
      split at enabled <;> cases enabled
      case h_1.refl value => exact ⟨rfl, le_rfl, le_rfl, rfl, waits_notifyDequeue⟩
      case h_2.refl value => exact ⟨rfl, le_rfl, le_rfl, rfl, waits_notifyEnqueue⟩
  | endWait bret =>
      obtain rfl : bret = true := allowed
      simp only [act] at enabled
      split at enabled <;> cases enabled
      case h_1.refl value => exact ⟨rfl, le_rfl, le_rfl, rfl, fun _ => ⟨rfl, rfl, id⟩⟩
      case h_2.refl => exact ⟨rfl, le_rfl, le_rfl, rfl, fun _ => ⟨rfl, rfl, id⟩⟩
  | size | empty | full =>
      simp only [act] at enabled
      split at enabled <;> cases enabled
      exact ⟨rfl, le_rfl, le_rfl, rfl, fun _ => ⟨rfl, rfl, id⟩⟩
  | _ => cases allowed

end Moves

section Clients

variable [Sequence C α] [DecidableEq Thread]

/-- A step of a client of the condition-variable queue. -/
def clientStep : Client Thread (System Thread width C α) α → Thread × Option (Action α) →
    Option (Client Thread (System Thread width C α) α) :=
  Client.step step makes goesOn

/-- A client that has not made a call yet. -/
def clientInitial (queueMaxSize : SizeT width) (work : Thread → Work α) :
    Client Thread (System Thread width C α) α where
  system := initial queueMaxSize
  work

variable [Fintype Thread]

/-- The invariant of a client with `messages` to enqueue and `requests` to dequeue in all. -/
structure Working (queueMaxSize : SizeT width) (messages requests : Nat)
    (client : Client Thread (System Thread width C α) α) : Prop where
  notified : Notified queueMaxSize client.system
  accounted : ledger.Accounted messages requests client

variable {queueMaxSize : SizeT width} {messages requests : Nat}
  {before after : Client Thread (System Thread width C α) α}

theorem working_initial (queueMaxSize : SizeT width) (work : Thread → Work α) :
    Working queueMaxSize (∑ thread, (work thread).messages) (∑ thread, (work thread).requests)
      (clientInitial queueMaxSize work : Client Thread (System Thread width C α) α) where
  notified := notified_initial queueMaxSize
  accounted := by
    refine Ledger.accounted_initial (clientInitial queueMaxSize work) ?_ fun _ => ⟨rfl, rfl, rfl⟩
    change ((Store.construct queueMaxSize (Sequence.empty : C)).contents : List α).length = 0
    rw [Store.contents_construct, List.length_nil]

/-- Every step of a client keeps the invariant. -/
theorem Working.step {choice : Thread × Option (Action α)}
    (working : Working queueMaxSize messages requests before)
    (taken : clientStep before choice = some after) :
    Working queueMaxSize messages requests after where
  notified := by
    rcases Client.cases_of_step taken with ⟨call, rest, _, next, moved, _⟩ |
      ⟨action, _, allowed, moved, _⟩
    · refine working.notified.step (fun isClear => ?_) moved
      rcases Work.cases_of_next? next with ⟨value, rfl, _⟩ | ⟨rfl, _⟩ <;> cases isClear
    · refine working.notified.step (fun isClear => ?_) moved
      obtain rfl : action = .clear := isClear
      cases allowed
  accounted := by
    have valid := working.notified.consistent.valid
    exact working.accounted.step (fun _ _ => moves_of_enqueue) (fun _ => moves_of_dequeue valid)
      (fun _ _ allowed => moves_of_goesOn valid (working.accounted.usual choice.1) allowed) taken

/-- A wait that ends spuriously. -/
def isWake : Option (Action α) → Bool
  | some (.endWait _) => true
  | _ => false

/-- A call of `size`, `empty` or `full`. -/
def isQuery : Option (Action α) → Bool
  | some .size => true
  | some .empty => true
  | some .full => true
  | _ => false

/-- What a step of a client is charged. -/
def charge (choice : Option (Action α)) : Nat := 2 * (isWake choice).toNat + (isQuery choice).toNat

/-- The steps of a client are bounded by its calls, the spurious wakeups and the queries. -/
theorem client_length_le {schedule : List (Thread × Option (Action α))}
    (execution : run clientStep before schedule = some after) :
    schedule.length ≤ (Fintype.card Thread + 1) * Client.callsLeft before.work +
      totalEffort before.system + (schedule.map fun choice => charge choice.2).sum := by
  refine Client.length_le (fun system next thread call isCall moved => ?_)
    (fun system next thread action allowed moved => ?_) execution
  · have effort := totalEffort_step moved
    rcases isCall with ⟨value, rfl⟩ | rfl <;>
      simpa [makes, isInternal, earned, isCall, isEndWait] using effort
  · have effort := totalEffort_step moved
    cases action with
    | resume | notify | endWait | size | empty | full =>
        simp only [isInternal, earned, isCall, isEndWait, charge, isWake, isQuery, Bool.toNat_true,
          Bool.toNat_false] at effort ⊢
        omega
    | _ => cases allowed

/-- Where no thread can go on, every thread has made its calls, or waits for room in a full queue,
or for a message in an empty one. -/
theorem Working.stopped {client : Client Thread (System Thread width C α) α}
    (working : Working queueMaxSize messages requests client)
    (stuck : ∀ thread, clientStep client (thread, none) = none ∧
      clientStep client (thread, some (.resume false)) = none ∧
        clientStep client (thread, some .notify) = none) (thread : Thread) :
    client.system.position thread = .idle ∧ (client.work thread).next? = none ∨
      0 < ledger.toPush client thread ∧ ledger.toPop client thread = 0 ∧
          client.system.shared.queueCurSize = client.system.shared.queueMaxSize ∨
        ledger.toPush client thread = 0 ∧ 0 < ledger.toPop client thread ∧
          client.system.shared.queueCurSize = 0 := by
  have rests := working.notified.settled
    (fun other => by simpa [clientStep, Client.step, goesOn] using (stuck other).2.1)
    (fun other => by simpa [clientStep, Client.step, goesOn] using (stuck other).2.2) thread
  obtain ⟨placedPush, placedPop⟩ := working.accounted.placed thread
  rcases rests with idle | ⟨⟨value, parked⟩, isFull⟩ | ⟨parked, isEmpty⟩
  · refine .inl ⟨idle, ?_⟩
    have next := (stuck thread).1
    simp only [clientStep, Client.step] at next
    split at next
    case h_1 call rest found =>
      have refused : act thread client.system.shared (client.system.position thread)
          (makes call) = none :=
        Option.map_eq_none_iff.mp (Option.map_eq_none_iff.mp next)
      rw [idle] at refused
      rcases Work.cases_of_next? found with ⟨value, rfl, _⟩ | ⟨rfl, _⟩ <;> cases refused
    case h_2 done => exact done
  · rw [parked] at placedPush placedPop
    refine .inr (.inl ⟨?_, ?_, isFull⟩)
    · rw [Ledger.toPush, parked]
      exact Nat.succ_pos _
    · rw [Ledger.toPop, parked, placedPush.resolve_left Nat.one_ne_zero]
      rfl
  · rw [parked] at placedPush placedPop
    refine .inr (.inr ⟨?_, ?_, isEmpty⟩)
    · rw [Ledger.toPush, parked, placedPop.resolve_left Nat.one_ne_zero]
      rfl
    · rw [Ledger.toPop, parked]
      exact Nat.succ_pos _

/-- The copies of the messages do not throw, and no wait comes to the end of its 1024 hours.  Then,
however a client is scheduled, the number of its steps is bounded, the spurious wakeups and the
queries apart; and where no thread can go on, all calls have returned exactly if the messages are
enough for the requests and what is left over fits into the queue. -/
theorem client_finishes (queueMaxSize : SizeT width) (positive : queueMaxSize ≠ 0)
    (work : Thread → Work α) {schedule : List (Thread × Option (Action α))}
    {final : Client Thread (System Thread width C α) α}
    (execution : run clientStep (clientInitial queueMaxSize work) schedule = some final) :
    schedule.length ≤ (Fintype.card Thread + 1) * Client.callsLeft work +
          2 * schedule.countP (fun choice => isWake choice.2) +
            schedule.countP (fun choice => isQuery choice.2) ∧
      ((∀ thread, clientStep final (thread, none) = none ∧
          clientStep final (thread, some (.resume false)) = none ∧
            clientStep final (thread, some .notify) = none) →
        ((∀ thread, final.system.position thread = .idle ∧ (final.work thread).next? = none) ↔
          ∑ thread, (work thread).requests ≤ ∑ thread, (work thread).messages ∧
            ∑ thread, (work thread).messages ≤
              ∑ thread, (work thread).requests + queueMaxSize.toNat)) := by
  constructor
  · have bound := client_length_le execution
    have nobody : totalEffort (initial queueMaxSize : System Thread width C α) = 0 :=
      tally_const_zero fun _ => rfl
    simp only [charge, List.sum_map_add, List.sum_map_mul_left] at bound
    rw [sum_toNat_eq_countP (fun choice : Thread × Option (Action α) => isWake choice.2),
      sum_toNat_eq_countP (fun choice : Thread × Option (Action α) => isQuery choice.2)] at bound
    change _ ≤ _ * Client.callsLeft work + totalEffort (initial queueMaxSize) + _ at bound
    rw [nobody] at bound
    omega
  · intro stuck
    have working : Working queueMaxSize _ _ final := Reachable.invariant ⟨schedule, execution⟩
      (working_initial queueMaxSize work) fun _ _ _ working taken => working.step taken
    have sameMax := working.notified.consistent.sameMax
    have valid := working.notified.consistent.valid
    have bounded := valid.bounded
    rw [sameMax] at bounded
    refine working.accounted.all_through_iff ⟨rfl, rfl⟩
      (Nat.pos_of_ne_zero (SizeT.eq_zero_iff.not.mp positive)) bounded fun thread => ?_
    refine (working.stopped stuck thread).imp_right (.imp ?_ ?_)
    · rintro ⟨waits, noPop, isFull⟩
      refine ⟨waits, noPop, ?_⟩
      rw [← sameMax, ← isFull]
      exact valid.counted.symm
    · rintro ⟨noPush, waits, isEmpty⟩
      refine ⟨noPush, waits, valid.counted.symm.trans ?_⟩
      rw [isEmpty]
      rfl

/-- A consumer that comes too early and a producer that asks for the size at the end. -/
theorem client_finishes_one_message :
    ∃ (work : Fin 2 → Work Nat) (schedule : List (Fin 2 × Option (Action Nat)))
      (final : Client (Fin 2) (System (Fin 2) 32 (List Nat) Nat) Nat),
      run clientStep (clientInitial 1 work) schedule = some final ∧
        work 0 = .produce [5] ∧ work 1 = .consume 1 ∧ schedule.length ≤ (2 + 1) * 2 + 2 * 0 + 1 ∧
          ∀ thread, final.system.position thread = .idle ∧
            (final.work thread).next? = none := by
  let work : Fin 2 → Work Nat := fun thread => if thread = 0 then .produce [5] else .consume 1
  let schedule : List (Fin 2 × Option (Action Nat)) :=
    [(1, none), (0, none), (0, some .notify), (1, some (.resume false)), (1, some .notify),
      (0, some .size)]
  have enabled : (run clientStep (clientInitial 1 work :
      Client (Fin 2) (System (Fin 2) 32 (List Nat) Nat) Nat) schedule).isSome := by
    decide
  obtain ⟨final, execution⟩ := Option.isSome_iff_exists.mp enabled
  obtain ⟨short, finishes⟩ := client_finishes 1 (by decide) work execution
  refine ⟨work, schedule, final, execution, rfl, rfl, short,
    (finishes fun thread => ?_).mpr (by decide)⟩
  obtain rfl := Option.some.inj execution
  match thread with | 0 | 1 => exact ⟨rfl, rfl, rfl⟩

end Clients
end ZenMessageQueueCondi
end BoostTest
