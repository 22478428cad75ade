import BoostTest.Queue.SemTokens

/-!
# Failing copies in the semaphore queue

A call takes its token before the critical section and gives one back by a plain `post` after it.
When the copy of the value throws in between, the token is gone: compared with the same run without
the call, `sem_full_` or `sem_empty_` is one short for good.
-/

namespace BoostTest
namespace ZenMessageQueueSem

open Execution Threads

variable {Thread C α : Type*} {width : Nat}

/-- The queue with extra tokens in its semaphores. -/
def Queue.grant (queue : Queue width C) (full empty : Nat) : Queue width C :=
  { queue with semFull := queue.semFull + full, semEmpty := queue.semEmpty + empty }

theorem Queue.ne_grant (queue : Queue width C) {full empty : Nat} (some_token : 0 < full + empty) :
    queue ≠ queue.grant full empty := by
  intro same
  have sameFull := congrArg Queue.semFull same
  have sameEmpty := congrArg Queue.semEmpty same
  simp only [Queue.grant] at sameFull sameEmpty
  omega

theorem timedWait_grant {tokens left : Nat} {bret : Bool}
    (waited : timedWait tokens bret = some left) (extra : Nat) :
    timedWait (tokens + extra) bret = some (left + extra) := by
  cases bret with
  | false => simpa using waited
  | true =>
      rw [timedWait_true] at waited ⊢
      omega

variable [Sequence C α]

/-- Extra tokens disable no step and change nothing else about it. -/
theorem act_grant {thread : Thread} {queue : Queue width C} {position : Position α}
    {action : Action α} {effect : Effect Thread width C α}
    (enabled : act thread queue position action = some effect) (full empty : Nat) :
    act thread (queue.grant full empty) position action =
      some { effect with shared := effect.shared.grant full empty } := by
  cases action with
  | enqueue value bret =>
      simp only [act] at enabled ⊢
      split at enabled
      case h_1 left waited =>
        simp only [Queue.grant, timedWait_grant waited]
        split at enabled <;> cases enabled <;> simp [*]
      case h_2 => cases enabled
  | dequeue bret =>
      simp only [act] at enabled ⊢
      split at enabled
      case h_1 left waited =>
        simp only [Queue.grant, timedWait_grant waited]
        split at enabled <;> cases enabled <;> simp [*]
      case h_2 => cases enabled
  | enter copyThrows =>
      simp only [act] at enabled ⊢
      split at enabled
      case h_1 => split at enabled <;> cases enabled <;> simp [Queue.grant, *]
      case h_2 => split at enabled <;> cases enabled <;> simp [Queue.grant, *]
      case h_3 => cases enabled
  | post =>
      simp only [act] at enabled ⊢
      split at enabled <;> cases enabled <;> simp [Queue.grant] <;> omega
  | clear | size | empty | full =>
      simp only [act] at enabled ⊢
      split at enabled <;> cases enabled
      rfl

/-- `twin` is `state` without the call `thread` is in: it has the call's token and does not run the
call. -/
structure Lacks (thread : Thread) (position : Position α) (full empty : Nat)
    (state twin : System Thread width C α) : Prop where
  shared : twin.shared = state.shared.grant full empty
  inCall : state.position thread = position
  others : ∀ other, other ≠ thread → twin.position other = state.position other

variable [DecidableEq Thread]

/-- Steps of the other threads do not notice the call. -/
theorem Lacks.step {thread : Thread} {position : Position α} {full empty : Nat}
    {before after twin : System Thread width C α} {choice : Thread × Action α}
    (lacks : Lacks thread position full empty before twin) (different : choice.1 ≠ thread)
    (taken : ZenMessageQueueSem.step before choice = some after) :
    ∃ next, ZenMessageQueueSem.step twin choice = some next ∧
      Lacks thread position full empty after next := by
  obtain ⟨effect, enabled, rfl⟩ := Threads.step_eq_some.mp taken
  obtain ⟨shared, inCall, others⟩ := lacks
  have alone := (does_of_act enabled).alone
  have follows := act_grant enabled full empty
  rw [← shared, ← others choice.1 different] at follows
  refine ⟨_, Threads.step_eq_some.mpr ⟨_, follows, rfl⟩, rfl, ?_, fun other notCaller => ?_⟩
  · rw [System.apply_position_other before choice.1 effect different.symm, alone]
    exact inCall
  · by_cases same : other = choice.1
    · subst same
      rw [System.apply_position_self, System.apply_position_self]
    · rw [System.apply_position_other _ _ _ same, System.apply_position_other _ _ _ same, alone]
      exact others other notCaller

/-- The same run without a call that is between its first two steps. -/
theorem exists_run_without_call {initial middle after : System Thread width C α}
    {thread : Thread} {call : Action α} {effect : Effect Thread width C α} {full empty : Nat}
    {front back : List (Thread × Action α)} (reached : run step initial front = some middle)
    (enabled : act thread middle.shared (middle.position thread) call = some effect)
    (token : middle.shared = effect.shared.grant full empty)
    (others : ∀ choice ∈ back, choice.1 ≠ thread)
    (execution : run step initial (front ++ (thread, call) :: back) = some after) :
    ∃ twin, run step initial (front ++ back) = some twin ∧
      Lacks thread effect.position full empty after twin := by
  have taken : step middle (thread, call) = some (middle.apply thread effect) :=
    Threads.step_eq_some.mpr ⟨effect, enabled, rfl⟩
  have continued : run step (middle.apply thread effect) back = some after := by
    rw [run_append, reached] at execution
    change (step middle (thread, call)).bind (fun next => run step next back) = _ at execution
    rwa [taken] at execution
  have start : Lacks thread effect.position full empty (middle.apply thread effect) middle := by
    refine ⟨token, middle.apply_position_self thread effect, fun other different => ?_⟩
    rw [middle.apply_position_other thread effect different, (does_of_act enabled).alone]
    rfl
  obtain ⟨twin, execution, lacks⟩ :=
    run_simulates (fun _ _ _ _ lacks different taken => lacks.step different taken) others start
      continued
  exact ⟨twin, by rw [run_append, reached]; exact execution, lacks⟩

/-- A run with one whole call in it splits at the two steps of the call. -/
theorem split_call {initial after : System Thread width C α} {first last : Thread × Action α}
    {front back : List (Thread × Action α)}
    (execution : run step initial (front ++ first :: (back ++ [last])) = some after) :
    ∃ started finishing, run step initial front = some started ∧
      run step initial (front ++ first :: back) = some finishing ∧
        step finishing last = some after := by
  have regroup : front ++ first :: (back ++ [last]) = (front ++ first :: back) ++ [last] := by simp
  rw [regroup] at execution
  obtain ⟨finishing, reached, finished⟩ := run_concat_eq_some.mp execution
  obtain ⟨started, began, _⟩ := run_append_eq_some.mp reached
  exact ⟨started, finishing, began, reached, finished⟩

/-- The first step of a call was enabled where the run had come to. -/
theorem exists_effect_of_call {initial started finishing : System Thread width C α}
    {thread : Thread} {call : Action α} {front back : List (Thread × Action α)}
    (began : run step initial front = some started)
    (reached : run step initial (front ++ (thread, call) :: back) = some finishing) :
    ∃ effect, act thread started.shared (started.position thread) call = some effect := by
  obtain ⟨middle, began', continued⟩ := run_append_eq_some.mp reached
  obtain rfl : started = middle := Option.some.inj (began.symm.trans began')
  obtain ⟨next, taken, _⟩ := Option.bind_eq_some_iff.mp continued
  obtain ⟨effect, enabled, _⟩ := Threads.step_eq_some.mp taken
  exact ⟨effect, enabled⟩

/-- An `enqueue` whose copy throws leaves `sem_full_` one token short of the run without it. -/
theorem enqueue_failure_leaks {initial after : System Thread width C α} {thread : Thread}
    {value : α} {front back : List (Thread × Action α)}
    (others : ∀ choice ∈ back, choice.1 ≠ thread)
    (execution : run step initial
      (front ++ (thread, .enqueue value true) :: (back ++ [(thread, .enter true)])) =
        some after) :
    ∃ twin, run step initial (front ++ back) = some twin ∧
      twin.shared = after.shared.grant 1 0 := by
  obtain ⟨started, finishing, began, reached, finished⟩ := split_call execution
  obtain ⟨effect, enabled⟩ := exists_effect_of_call began reached
  have does := does_of_act enabled
  have held : effect.position = .enqueueHolding value ∧
      started.shared = effect.shared.grant 1 0 := by
    generalize started.position thread = position at does
    cases does with
    | enqueueTake _ left token => exact ⟨rfl, by simp [Queue.grant, ← token]⟩
    | query answer reads => rcases reads with ⟨same, _⟩ | ⟨same, _⟩ | ⟨same, _⟩ <;> cases same
  obtain ⟨twin, alone, lacks⟩ :=
    exists_run_without_call began enabled held.2 others reached
  refine ⟨twin, alone, ?_⟩
  obtain ⟨final, threw, rfl⟩ := Threads.step_eq_some.mp finished
  have threw : act thread finishing.shared (.enqueueHolding value) (.enter true) = some final := by
    rw [← held.1, ← lacks.inCall]
    exact threw
  cases threw
  exact lacks.shared

/-- A `dequeue` whose copy throws leaves `sem_empty_` one token short of the run without it. -/
theorem dequeue_failure_leaks {initial after : System Thread width C α} {thread : Thread}
    {front back : List (Thread × Action α)} (others : ∀ choice ∈ back, choice.1 ≠ thread)
    (execution : run step initial
      (front ++ (thread, .dequeue true) :: (back ++ [(thread, .enter true)])) = some after)
    (threw : after.position thread ≠ .crashed) :
    ∃ twin, run step initial (front ++ back) = some twin ∧
      twin.shared = after.shared.grant 0 1 := by
  obtain ⟨started, finishing, began, reached, finished⟩ := split_call execution
  obtain ⟨effect, enabled⟩ := exists_effect_of_call began reached
  have does := does_of_act enabled
  have held : effect.position = .dequeueHolding ∧
      started.shared = effect.shared.grant 0 1 := by
    generalize started.position thread = position at does
    cases does with
    | dequeueTake left token => exact ⟨rfl, by simp [Queue.grant, ← token]⟩
    | query answer reads => rcases reads with ⟨same, _⟩ | ⟨same, _⟩ | ⟨same, _⟩ <;> cases same
  obtain ⟨twin, alone, lacks⟩ :=
    exists_run_without_call began enabled held.2 others reached
  refine ⟨twin, alone, ?_⟩
  obtain ⟨final, entered, rfl⟩ := Threads.step_eq_some.mp finished
  have does := does_of_act entered
  have holding : finishing.position thread = .dequeueHolding := lacks.inCall.trans held.1
  rw [holding] at does
  rw [System.apply_position_self] at threw
  cases does with
  | dequeueThrow => exact lacks.shared
  | dequeueCrash => exact (threw rfl).elim

variable [Fintype Thread]

/-- With no call in flight the semaphores add up to the size of the queue and `sem_empty_` to its
messages exactly where no copy has ever thrown and no `clear` has thrown a message away. -/
theorem quiescent_tokens_iff {queueMaxSize : SizeT width} {system : System Thread width C α}
    (reach : Reachable step (initial queueMaxSize) system)
    (quiescent : ∀ thread, system.position thread = .idle) :
    system.shared.semFull + system.shared.semEmpty = queueMaxSize.toNat ∧
        system.shared.semEmpty = (system.shared.store.contents : List α).length ↔
      failedEnqueues system.history = 0 ∧ failedDequeues system.history = 0 ∧
        discarded system.history = 0 := by
  have nobody (test : Position α → Bool) (testIdle : test .idle = false) :
      count test system.position = 0 := count_eq_zero_of_idle quiescent testIdle
  have balanced := balanced_of_reachable reach
  have slots := balanced.slots
  have messages := balanced.messages
  rw [nobody isEnqueueHolding rfl, nobody isDequeuePosting rfl] at slots
  rw [nobody isDequeueHolding rfl, nobody isCrashed rfl, nobody isEnqueuePosting rfl] at messages
  omega

/-- A call that a failing copy has left is never without trace: the same run without it has one
more token in the semaphore the call waited for.  So the tokens of a queue with no call in flight
are right exactly where no copy has ever thrown and no `clear` has thrown a message away. -/
theorem failed_copy_leaks (queueMaxSize : SizeT width) :
    (∀ (front back : List (Thread × Action α)) thread value
        (after : System Thread width C α), (∀ choice ∈ back, choice.1 ≠ thread) →
      run step (initial queueMaxSize)
          (front ++ (thread, .enqueue value true) :: (back ++ [(thread, .enter true)])) =
        some after →
      ∃ twin : System Thread width C α,
        run step (initial queueMaxSize) (front ++ back) = some twin ∧
          after.shared ≠ twin.shared ∧ twin.shared = after.shared.grant 1 0) ∧
      (∀ (front back : List (Thread × Action α)) thread
          (after : System Thread width C α), (∀ choice ∈ back, choice.1 ≠ thread) →
        run step (initial queueMaxSize)
            (front ++ (thread, .dequeue true) :: (back ++ [(thread, .enter true)])) =
          some after →
        after.position thread ≠ .crashed →
        ∃ twin : System Thread width C α,
          run step (initial queueMaxSize) (front ++ back) = some twin ∧
            after.shared ≠ twin.shared ∧ twin.shared = after.shared.grant 0 1) ∧
      ∀ system : System Thread width C α, Reachable step (initial queueMaxSize) system →
        (∀ thread, system.position thread = .idle) →
        (system.shared.semFull + system.shared.semEmpty = queueMaxSize.toNat ∧
            system.shared.semEmpty = (system.shared.store.contents : List α).length ↔
          failedEnqueues system.history = 0 ∧ failedDequeues system.history = 0 ∧
            discarded system.history = 0) := by
  refine ⟨?_, ?_, fun system reach quiescent => quiescent_tokens_iff reach quiescent⟩
  · intro front back thread value after others execution
    obtain ⟨twin, alone, leak⟩ := enqueue_failure_leaks others execution
    exact ⟨twin, alone, leak ▸ after.shared.ne_grant (by decide), leak⟩
  · intro front back thread after others execution threw
    obtain ⟨twin, alone, leak⟩ := dequeue_failure_leaks others execution threw
    exact ⟨twin, alone, leak ▸ after.shared.ne_grant (by decide), leak⟩

/-- An `enqueue` whose copy throws, alone on a queue of size one, is not without trace: the queue
has no message, no call is in flight, and its only slot is gone. -/
theorem failed_copy_loses_slot :
    ∃ after twin : System (Fin 1) 32 (List Nat) Nat,
      run step (initial 1) [(0, .enqueue 7 true), (0, .enter true)] = some after ∧
        run step (initial 1) [] = some twin ∧ after.shared ≠ twin.shared ∧
          (∀ thread, after.position thread = .idle) ∧
            after.shared.semFull + after.shared.semEmpty ≠ (1 : SizeT 32).toNat := by
  have enabled : (run step (initial 1 : System (Fin 1) 32 (List Nat) Nat)
      [(0, .enqueue 7 true), (0, .enter true)]).isSome := by
    decide
  have slotGone : (0 : Nat) ≠ 1 := Nat.zero_ne_one
  refine ⟨_, _, (Option.some_get enabled).symm, rfl, ?_, fun thread => ?_, slotGone⟩
  · exact fun same => slotGone (congrArg Queue.semFull same)
  · match thread with
    | 0 => rfl

/-- The three laws at work: a second thread runs during each of the failing calls. -/
theorem failed_copy_leaks_interleaved :
    (∃ twin : System (Fin 2) 32 (List Nat) Nat,
        run step (initial 2) ([] ++ [(1, .enqueue 8 true), (1, .enter false), (1, .post)]) =
            some twin ∧ twin.shared.semFull = 1) ∧
      (∃ twin : System (Fin 2) 32 (List Nat) Nat,
        run step (initial 2) ([(1, .enqueue 8 true), (1, .enter false), (1, .post)] ++
            [(1, .size)]) = some twin ∧ twin.shared.semEmpty = 1) ∧
        ((initial 2 : System (Fin 2) 32 (List Nat) Nat).shared.semFull +
            (initial 2 : System (Fin 2) 32 (List Nat) Nat).shared.semEmpty = 2 ∧
          (initial 2 : System (Fin 2) 32 (List Nat) Nat).shared.semEmpty = 0) := by
  have enqueueFails : (run step (initial 2 : System (Fin 2) 32 (List Nat) Nat)
      ([] ++ (0, .enqueue 7 true) ::
        ([(1, .enqueue 8 true), (1, .enter false), (1, .post)] ++ [(0, .enter true)]))).isSome := by
    decide
  have dequeueFails : (run step (initial 2 : System (Fin 2) 32 (List Nat) Nat)
      ([(1, .enqueue 8 true), (1, .enter false), (1, .post)] ++
        (0, .dequeue true) :: ([(1, .size)] ++ [(0, .enter true)]))).isSome := by
    decide
  obtain ⟨enqueueLaw, dequeueLaw, quiescentLaw⟩ :=
    @failed_copy_leaks (Fin 2) (List Nat) Nat 32 _ _ _ 2
  obtain ⟨first, ranFirst, _, grewFirst⟩ :=
    enqueueLaw _ _ 0 7 _ (by decide) (Option.some_get enqueueFails).symm
  obtain ⟨second, ranSecond, _, grewSecond⟩ :=
    dequeueLaw _ _ 0 _ (by decide) (Option.some_get dequeueFails).symm nofun
  exact ⟨⟨first, ranFirst, congrArg Queue.semFull grewFirst⟩,
    ⟨second, ranSecond, congrArg Queue.semEmpty grewSecond⟩,
    (quiescentLaw _ (Reachable.refl _) fun _ => rfl).mpr ⟨rfl, rfl, rfl⟩⟩

end ZenMessageQueueSem
end BoostTest
