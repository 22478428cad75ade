import BoostTest.Queue.SemSettle
import BoostTest.Queue.Workload

/-!
# Producers and consumers at the semaphore queue

The threads of a client take three steps for each call, however they are scheduled, and where they
come to a stop the tokens tell why: no slot is left, or no message.
-/

namespace BoostTest
namespace ZenMessageQueueSem

open Execution Function Threads

variable {Thread C α : Type*} {width : Nat}

/-- An `enqueue` that has not pushed its message yet. -/
def waitsToPush : Position α → Nat
  | .enqueueHolding _ => 1
  | _ => 0

/-- A `dequeue` that has not popped a message yet. -/
def waitsToPop : Position α → Nat
  | .dequeueHolding => 1
  | _ => 0

/-- How far the calls have come with their messages. -/
def ledger [Sequence C α] : Ledger (Queue width C) (Position α) where
  held queue := (queue.store.contents : List α).length
  waitsToPush := waitsToPush
  waitsToPop := waitsToPop
  usual position := position ≠ .crashed

/-- A call whose wait does not time out. -/
def makes : Call α → Action α
  | .enqueue value => .enqueue value true
  | .dequeue => .dequeue true
  | .clear => .clear
  | .size => .size
  | .empty => .empty
  | .full => .full

/-- The other actions of such a thread: those of a call whose copy does not throw, and between two
calls it may ask for the state of the queue. -/
def goesOn : Action α → Bool
  | .enter copyThrows => !copyThrows
  | .post => true
  | .size => true
  | .empty => true
  | .full => true
  | _ => false

section Moves

variable [Sequence C α] {thread : Thread} {queue : Queue width C} {position : Position α}
  {effect : Effect Thread width C α}

/-- A call of `enqueue`. -/
theorem moves_of_enqueue {value : α}
    (enabled : act thread queue position (.enqueue value true) = some effect) :
    ledger.Moves queue position effect 1 0 := by
  cases does_of_act enabled with
  | enqueueTake left token => exact ⟨rfl, le_rfl, le_rfl, nofun, fun _ => ⟨rfl, rfl, id⟩⟩
  | query answer reads => rcases reads with ⟨other, _⟩ | ⟨other, _⟩ | ⟨other, _⟩ <;> cases other

/-- A call of `dequeue`. -/
theorem moves_of_dequeue (enabled : act thread queue position (.dequeue true) = some effect) :
    ledger.Moves queue position effect 0 1 := by
  cases does_of_act enabled with
  | dequeueTake left token => exact ⟨rfl, le_rfl, le_rfl, nofun, fun _ => ⟨rfl, rfl, id⟩⟩
  | query answer reads => rcases reads with ⟨other, _⟩ | ⟨other, _⟩ | ⟨other, _⟩ <;> cases other

/-- The further course of a call that finds a message if it needs one. -/
theorem moves_of_goesOn
    (nonempty : position = .dequeueHolding → (queue.store.contents : List α) ≠ [])
    {action : Action α} (allowed : goesOn action = true)
    (enabled : act thread queue position action = some effect) :
    ledger.Moves queue position effect 0 0 := by
  cases does_of_act enabled with
  | enqueuePush value =>
      refine ⟨?_, Nat.zero_le _, le_rfl, nofun, fun _ => ⟨rfl, rfl, id⟩⟩
      change ((queue.store.enqueueBody value).contents : List α).length + 0 + 0 + 0 =
        (queue.store.contents : List α).length + 1 + 0 + 0
      rw [Store.contents_enqueueBody, List.length_append, List.length_singleton]
  | dequeuePop value after done =>
      have messages := Store.contents_of_dequeueBody done
      refine ⟨?_, le_rfl, Nat.zero_le _, nofun, fun _ => ⟨rfl, rfl, id⟩⟩
      change (after.contents : List α).length + 0 + 1 + 0 =
        (queue.store.contents : List α).length + 0 + 0 + 0
      rw [messages, List.length_cons]
  | dequeueCrash copyThrows nothing => exact (nonempty rfl nothing).elim
  | enqueuePost | dequeuePost | query => exact ⟨rfl, le_rfl, le_rfl, nofun, fun _ => ⟨rfl, rfl, id⟩⟩
  | _ => cases allowed

end Moves

section Clients

variable [Sequence C α] [DecidableEq Thread]

/-- A step of a client of the semaphore queue. -/
def clientStep : Client Thread (System Thread width C α) α → Thread × Option (Action α) →
    Option (Client Thread (System Thread width C α) α) :=
  Client.step step makes goesOn

/-- A client that has not made a call yet. -/
def clientInitial (queueMaxSize : SizeT width) (work : Thread → Work α) :
    Client Thread (System Thread width C α) α where
  system := initial queueMaxSize
  work

variable [Fintype Thread]

/-- The invariant of a client with `messages` to enqueue and `requests` to dequeue in all. -/
structure Working (queueMaxSize : SizeT width) (messages requests : Nat)
    (client : Client Thread (System Thread width C α) α) : Prop where
  clean : Clean queueMaxSize client.system
  accounted : ledger.Accounted messages requests client

variable {queueMaxSize : SizeT width} {messages requests : Nat}
  {before after : Client Thread (System Thread width C α) α}

theorem working_initial (queueMaxSize : SizeT width) (work : Thread → Work α) :
    Working queueMaxSize (∑ thread, (work thread).messages) (∑ thread, (work thread).requests)
      (clientInitial queueMaxSize work : Client Thread (System Thread width C α) α) where
  clean := clean_initial queueMaxSize
  accounted := by
    refine Ledger.accounted_initial (clientInitial queueMaxSize work) ?_ fun _ => ⟨nofun, rfl, rfl⟩
    change ((Store.construct queueMaxSize (Sequence.empty : C)).contents : List α).length = 0
    rw [Store.contents_construct, List.length_nil]

/-- Every step of a client keeps the invariant. -/
theorem Working.step {choice : Thread × Option (Action α)}
    (working : Working queueMaxSize messages requests before)
    (taken : clientStep before choice = some after) :
    Working queueMaxSize messages requests after where
  clean := by
    rcases Client.cases_of_step taken with ⟨call, rest, _, next, moved, _⟩ |
      ⟨action, _, allowed, moved, _⟩
    · refine working.clean.step (fun isClear => ?_) moved
      rcases Work.cases_of_next? next with ⟨value, rfl, _⟩ | ⟨rfl, _⟩ <;> cases isClear
    · refine working.clean.step (fun isClear => ?_) moved
      obtain rfl : action = .clear := isClear
      cases allowed
  accounted := working.accounted.step (fun _ _ => moves_of_enqueue) (fun _ => moves_of_dequeue)
    (fun _ _ allowed => moves_of_goesOn (working.clean.nonempty choice.1) allowed) taken

/-- A call of `size`, `empty` or `full`. -/
def isQuery : Option (Action α) → Bool
  | some .size => true
  | some .empty => true
  | some .full => true
  | _ => false

/-- The steps of a client are bounded by its calls and the queries. -/
theorem client_length_le {schedule : List (Thread × Option (Action α))}
    (execution : run clientStep before schedule = some after) :
    schedule.length ≤ (2 + 1) * Client.callsLeft before.work + totalEffort before.system +
      (schedule.map fun choice => (isQuery choice.2).toNat).sum := by
  refine @Client.length_le _ _ _ _ _ _ _ _ _ totalEffort 2 (fun choice => (isQuery choice).toNat)
    (fun system next thread call isCall moved => ?_)
    (fun system next thread action allowed moved => ?_) _ _ _ execution
  · have effort := totalEffort_step moved
    rcases isCall with ⟨value, rfl⟩ | rfl <;> simpa [makes, isInternal, takesToken] using effort
  · have effort := totalEffort_step moved
    cases action with
    | enter | post | size | empty | full =>
        simp only [isInternal, takesToken, isQuery, Bool.toNat_true, Bool.toNat_false] at effort ⊢
        omega
    | _ => cases allowed

/-- Where no thread can go on, every thread has made its calls, or waits while no slot is left, or
while no message is left. -/
theorem Working.stopped {client : Client Thread (System Thread width C α) α}
    (working : Working queueMaxSize messages requests client)
    (stuck : ∀ thread, clientStep client (thread, none) = none ∧
      clientStep client (thread, some (.enter false)) = none ∧
        clientStep client (thread, some .post) = none) (thread : Thread) :
    client.system.position thread = .idle ∧
      ((client.work thread).next? = none ∨
        0 < ledger.toPush client thread ∧ ledger.toPop client thread = 0 ∧
            client.system.shared.semFull = 0 ∨
          ledger.toPush client thread = 0 ∧ 0 < ledger.toPop client thread ∧
            client.system.shared.semEmpty = 0) := by
  obtain ⟨next, enter, post⟩ := stuck thread
  have idle : client.system.position thread = .idle :=
    (exists_internal_step (by simpa [clientStep, Client.step, goesOn] using enter)
      (by simpa [clientStep, Client.step, goesOn] using post)).resolve_right
        (working.clean.safe thread)
  refine ⟨idle, ?_⟩
  have toPush : ledger.toPush client thread = (client.work thread).messages := by
    rw [Ledger.toPush, idle]
    rfl
  have toPop : ledger.toPop client thread = (client.work thread).requests := by
    rw [Ledger.toPop, idle]
    rfl
  simp only [clientStep, Client.step] at next
  split at next
  case h_2 done => exact .inl done
  case h_1 call rest found =>
    have refused := Option.map_eq_none_iff.mp next
    rcases Work.cases_of_next? found with ⟨value, rfl, left, own, _⟩ | ⟨rfl, left, own, _⟩
    · refine .inr (.inl ⟨by omega, by omega, ?_⟩)
      by_contra token
      have enabled := (isSome_enqueue_iff value).mpr ⟨idle, Nat.pos_of_ne_zero token⟩
      rw [← Option.not_isSome_iff_eq_none] at refused
      exact refused enabled
    · refine .inr (.inr ⟨by omega, by omega, ?_⟩)
      by_contra token
      have enabled := isSome_dequeue_iff.mpr ⟨idle, Nat.pos_of_ne_zero token⟩
      rw [← Option.not_isSome_iff_eq_none] at refused
      exact refused enabled

omit [Fintype Thread] in
/-- No call of a client is left by an exception. -/
theorem no_failures_of_client {work : Thread → Work α}
    {schedule : List (Thread × Option (Action α))}
    (execution : run clientStep (clientInitial queueMaxSize work) schedule = some after) :
    failedEnqueues after.system.history = 0 ∧ failedDequeues after.system.history = 0 := by
  obtain ⟨actions, queueRun, each⟩ := Client.exists_run execution
  refine no_failures_of_copies (fun choice member throws => ?_) queueRun
  rcases each choice member with ⟨value, isCall⟩ | isCall | allowed
  · rw [throws] at isCall
    cases isCall
  · rw [throws] at isCall
    cases isCall
  · rw [throws] at allowed
    cases allowed

/-- The copies of the messages do not throw, and no wait comes to the end of its 1024 hours.  Then,
however a client is scheduled, it takes three steps for each call at most, the queries apart; and
where no thread can go on, all calls have returned exactly if the messages are enough for the
requests and what is left over fits into the queue. -/
theorem client_runs_through (queueMaxSize : SizeT width) (positive : queueMaxSize ≠ 0)
    (work : Thread → Work α) {schedule : List (Thread × Option (Action α))}
    {final : Client Thread (System Thread width C α) α}
    (execution : run clientStep (clientInitial queueMaxSize work) schedule = some final) :
    schedule.length ≤
        3 * Client.callsLeft work + schedule.countP (fun choice => isQuery choice.2) ∧
      ((∀ thread, clientStep final (thread, none) = none ∧
          clientStep final (thread, some (.enter false)) = none ∧
            clientStep final (thread, some .post) = none) →
        ((∀ thread, final.system.position thread = .idle ∧ (final.work thread).next? = none) ↔
          ∑ thread, (work thread).requests ≤ ∑ thread, (work thread).messages ∧
            ∑ thread, (work thread).messages ≤
              ∑ thread, (work thread).requests + queueMaxSize.toNat)) := by
  constructor
  · have bound := client_length_le execution
    have nobody : totalEffort (initial queueMaxSize : System Thread width C α) = 0 :=
      tally_const_zero fun _ => rfl
    rw [sum_toNat_eq_countP (fun choice : Thread × Option (Action α) => isQuery choice.2)] at bound
    change _ ≤ _ * Client.callsLeft work + totalEffort (initial queueMaxSize) + _ at bound
    rw [nobody] at bound
    omega
  · intro stuck
    have working : Working queueMaxSize _ _ final := Reachable.invariant ⟨schedule, execution⟩
      (working_initial queueMaxSize work) fun _ _ _ working taken => working.step taken
    have stopped := working.stopped stuck
    have bounded := working.clean.balanced.valid.bounded
    rw [working.clean.balanced.sameMax] at bounded
    obtain ⟨noFailedEnqueue, noFailedDequeue⟩ := no_failures_of_client execution
    have nobody (test : Position α → Bool) (testIdle : test .idle = false) :
        count test final.system.position = 0 :=
      count_eq_zero_of_idle (fun thread => (stopped thread).1) testIdle
    have slots := working.clean.balanced.slots
    have messages := working.clean.balanced.messages
    rw [nobody isEnqueueHolding rfl, nobody isDequeuePosting rfl, noFailedEnqueue, discarded,
      working.clean.kept, List.length_nil] at slots
    rw [nobody isDequeueHolding rfl, nobody isEnqueuePosting rfl, nobody isCrashed rfl,
      noFailedDequeue, discarded, working.clean.kept, List.length_nil] at messages
    refine working.accounted.all_through_iff ⟨rfl, rfl⟩
      (Nat.pos_of_ne_zero (SizeT.eq_zero_iff.not.mp positive)) bounded fun thread => ?_
    obtain ⟨idle, done | ⟨waits, noPop, noSlot⟩ | ⟨noPush, waits, noMessage⟩⟩ := stopped thread
    · exact .inl ⟨idle, done⟩
    · refine .inr (.inl ⟨waits, noPop, ?_⟩)
      change (final.system.shared.store.contents : List α).length = queueMaxSize.toNat
      omega
    · refine .inr (.inr ⟨noPush, waits, ?_⟩)
      change (final.system.shared.store.contents : List α).length = 0
      omega

/-- A queue of size one with a message too many for it: the producer waits for ever. -/
theorem client_runs_through_full :
    ∃ (work : Fin 2 → Work Nat) (schedule : List (Fin 2 × Option (Action Nat)))
      (final : Client (Fin 2) (System (Fin 2) 32 (List Nat) Nat) Nat),
      run clientStep (clientInitial 1 work) schedule = some final ∧
        work 0 = .produce [5, 6, 7] ∧ work 1 = .consume 1 ∧ schedule.length ≤ 3 * 4 + 0 ∧
          ¬ ∀ thread, final.system.position thread = .idle ∧
            (final.work thread).next? = none := by
  let work : Fin 2 → Work Nat := fun thread =>
    if thread = 0 then .produce [5, 6, 7] else .consume 1
  let schedule : List (Fin 2 × Option (Action Nat)) :=
    [(0, none), (0, some (.enter false)), (0, some .post), (1, none), (1, some (.enter false)),
      (1, some .post), (0, none), (0, some (.enter false)), (0, some .post)]
  have enabled : (run clientStep (clientInitial 1 work :
      Client (Fin 2) (System (Fin 2) 32 (List Nat) Nat) Nat) schedule).isSome := by
    decide
  obtain ⟨final, execution⟩ := Option.isSome_iff_exists.mp enabled
  obtain ⟨short, through⟩ := client_runs_through 1 (by decide) work execution
  refine ⟨work, schedule, final, execution, rfl, rfl, short,
    (through fun thread => ?_).not.mpr (by decide)⟩
  obtain rfl := Option.some.inj execution
  match thread with | 0 | 1 => exact ⟨rfl, rfl, rfl⟩

end Clients
end ZenMessageQueueSem
end BoostTest
