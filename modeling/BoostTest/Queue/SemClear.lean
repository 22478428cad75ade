import BoostTest.Queue.SemTokens

/-!
# The semaphore queue after `clear`

`clear` empties the container and leaves `sem_empty_` alone, so the tokens of the messages it threw
away are still there to be taken.  A run in which each `clear` finds the queue empty is safe; after
a `clear` that throws a message away some continuation reads the empty container.
-/

namespace BoostTest
namespace ZenMessageQueueSem

open Execution Threads

variable {Thread C α : Type*} {width : Nat} [Sequence C α] [DecidableEq Thread]

/-- No thread has read or popped an empty container, and the counter, which therefore never
wrapped, is the length of the container and within bounds. -/
structure Sound (queueMaxSize : SizeT width) (system : System Thread width C α) : Prop where
  safe : ∀ thread, system.position thread ≠ .crashed
  counted : system.shared.store.queueCurSize.toNat =
    (system.shared.store.contents : List α).length
  bounded : (system.shared.store.contents : List α).length ≤ queueMaxSize.toNat

theorem step_of_act {system : System Thread width C α} {thread : Thread} {action : Action α}
    {effect : Effect Thread width C α}
    (enabled : act thread system.shared (system.position thread) action = some effect) :
    step system (thread, action) = some (system.apply thread effect) :=
  Threads.step_eq_some.mpr ⟨effect, enabled, rfl⟩

/-- A `dequeue` that holds a token enters its critical section on an empty container. -/
theorem crash_of_holding {system : System Thread width C α} {thread : Thread}
    (nothing : system.shared.store.contents = ([] : List α))
    (holding : system.position thread = .dequeueHolding) :
    ∃ final, run step system [(thread, .enter false)] = some final ∧
      final.position thread = .crashed := by
  have entered : act thread system.shared (system.position thread) (.enter false) =
      some { shared := system.shared, position := .crashed } := by
    rw [holding]
    simp only [act, Store.dequeueBody_of_nil nothing]
  refine ⟨_, by rw [run_cons, step_of_act entered]; rfl, ?_⟩
  rw [System.apply_position_self]

/-- An idle thread takes a token of `sem_empty_` that no message answers for. -/
theorem crash_of_token {system : System Thread width C α} {thread : Thread} {left : Nat}
    (nothing : system.shared.store.contents = ([] : List α))
    (idle : system.position thread = .idle) (token : system.shared.semEmpty = left + 1) :
    ∃ final, run step system [(thread, .dequeue true), (thread, .enter false)] = some final ∧
      final.position thread = .crashed := by
  let taking : Effect Thread width C α :=
    { shared := { system.shared with semEmpty := left }, position := .dequeueHolding }
  have waited : act thread system.shared (system.position thread) (.dequeue true) =
      some taking := by
    rw [idle]
    simp only [act, token, timedWait]
    rfl
  have stillNothing : (system.apply thread taking).shared.store.contents = ([] : List α) := nothing
  obtain ⟨final, entered, crashed⟩ :=
    crash_of_holding stillNothing (system.apply_position_self thread taking)
  exact ⟨final, by rw [run_cons, step_of_act waited]; exact entered, crashed⟩

/-- An `enqueue` whose message was thrown away posts its token and takes it as a `dequeue`. -/
theorem crash_of_posting {system : System Thread width C α} {thread : Thread} {value : α}
    (nothing : system.shared.store.contents = ([] : List α))
    (posting : system.position thread = .enqueuePosting value) :
    ∃ final,
      run step system [(thread, .post), (thread, .dequeue true), (thread, .enter false)] =
          some final ∧
        final.position thread = .crashed := by
  let handing : Effect Thread width C α :=
    { shared := { system.shared with semEmpty := system.shared.semEmpty + 1 }
      position := .idle
      events := [.returned thread (.enqueue value 0)] }
  have posted : act thread system.shared (system.position thread) .post = some handing := by
    rw [posting]
    rfl
  have stillNothing : (system.apply thread handing).shared.store.contents = ([] : List α) :=
    nothing
  obtain ⟨final, continued, crashed⟩ :=
    crash_of_token stillNothing (system.apply_position_self thread handing) rfl
  exact ⟨final, by rw [run_cons, step_of_act posted]; exact continued, crashed⟩

variable [Fintype Thread]

/-- With the container empty and a token of `sem_empty_` left anywhere, some thread can be brought
to read the empty container. -/
theorem crash_of_phantom {system : System Thread width C α} {thread : Thread}
    (nothing : system.shared.store.contents = ([] : List α))
    (idle : system.position thread = .idle)
    (phantom : 0 < system.shared.semEmpty + count isDequeueHolding system.position +
      count isEnqueuePosting system.position) :
    ∃ rest final other, run step system rest = some final ∧ final.position other = .crashed := by
  by_cases holding : 0 < count isDequeueHolding system.position
  · obtain ⟨other, test⟩ := count_pos_iff.mp holding
    have here : system.position other = .dequeueHolding := by
      generalize system.position other = position at test
      cases position <;> first | rfl | cases test
    obtain ⟨final, execution, crashed⟩ := crash_of_holding nothing here
    exact ⟨_, final, other, execution, crashed⟩
  · by_cases posting : 0 < count isEnqueuePosting system.position
    · obtain ⟨other, test⟩ := count_pos_iff.mp posting
      have here : ∃ value, system.position other = .enqueuePosting value := by
        generalize system.position other = position at test
        cases position <;> first | exact ⟨_, rfl⟩ | cases test
      obtain ⟨value, here⟩ := here
      obtain ⟨final, execution, crashed⟩ := crash_of_posting nothing here
      exact ⟨_, final, other, execution, crashed⟩
    · have positive : 0 < system.shared.semEmpty := by omega
      obtain ⟨left, token⟩ := Nat.exists_eq_add_one.mpr positive
      obtain ⟨final, execution, crashed⟩ := crash_of_token nothing idle token
      exact ⟨_, final, thread, execution, crashed⟩

/-- Every run in which each `clear` finds the queue empty is sound throughout.  Conversely, whenever
such a run, its copies not throwing, comes to a `clear` of a nonempty queue, it can go on to read
the empty container. -/
theorem sound_iff_clear_finds_empty (queueMaxSize : SizeT width) :
    (∀ schedule, Throughout step ClearFindsEmpty
        (initial queueMaxSize : System Thread width C α) schedule →
      Always step (Sound queueMaxSize) (initial queueMaxSize : System Thread width C α)
        schedule) ∧
      ∀ schedule (system : System Thread width C α) thread,
        Throughout step ClearFindsEmpty (initial queueMaxSize : System Thread width C α) schedule →
        (∀ choice ∈ schedule, choice.2 ≠ .enter true) →
        run step (initial queueMaxSize) schedule = some system →
        system.position thread = .idle → system.shared.store.contents ≠ ([] : List α) →
        ∃ rest, ∃ final : System Thread width C α, ∃ other,
          run step (initial queueMaxSize) (schedule ++ (thread, .clear) :: rest) = some final ∧
            final.position other = .crashed := by
  constructor
  · intro schedule findsEmpty front isPrefix system execution
    have clean := clean_of_clearFindsEmpty (findsEmpty.of_prefix isPrefix) execution
    have slots := clean.balanced.slots
    exact ⟨clean.safe, clean.balanced.valid.counted, by omega⟩
  · intro schedule system thread findsEmpty copies execution idle nonempty
    obtain ⟨balanced, kept, safe⟩ := clean_of_clearFindsEmpty findsEmpty execution
    obtain ⟨_, dequeues⟩ := no_failures_of_copies copies execution
    let clearing : Effect Thread width C α :=
      { shared := { system.shared with store := system.shared.store.clear }
        position := .idle
        events := [.moved thread (.clear system.shared.store.contents), .returned thread .clear] }
    have cleared : act thread system.shared (system.position thread) .clear = some clearing := by
      rw [idle]
      rfl
    have same : (system.apply thread clearing).position = system.position := by
      rw [system.apply_position_of_id thread clearing rfl]
      exact Function.update_eq_self_iff.mpr idle.symm
    have phantom : 0 < (system.apply thread clearing).shared.semEmpty +
        count isDequeueHolding (system.apply thread clearing).position +
          count isEnqueuePosting (system.apply thread clearing).position := by
      have messages := balanced.messages
      have nobody : count isCrashed system.position = 0 := count_isCrashed_eq_zero safe
      have some_message := List.length_pos_iff.mpr nonempty
      rw [same]
      rw [discarded, kept, List.length_nil] at messages
      change 0 < system.shared.semEmpty + _ + _
      omega
    obtain ⟨rest, final, other, continued, crashed⟩ :=
      crash_of_phantom (Store.contents_clear system.shared.store)
        (system.apply_position_self thread clearing) phantom
    refine ⟨rest, final, other, ?_, crashed⟩
    rw [run_append, execution]
    exact (congrArg (·.bind fun next => run step next rest) (step_of_act cleared)).trans continued

/-- One thread enqueues, clears and dequeues: the token outlives the message. -/
theorem sound_fails_after_clear :
    ¬ ∀ schedule, Always step (Sound 1)
        (initial 1 : System (Fin 1) 32 (List Nat) Nat) schedule := by
  intro always
  let schedule : List (Fin 1 × Action Nat) :=
    [(0, .enqueue 7 true), (0, .enter false), (0, .post), (0, .clear), (0, .dequeue true),
      (0, .enter false)]
  have enabled : (run step (initial 1 : System (Fin 1) 32 (List Nat) Nat) schedule).isSome := by
    decide
  have sound := always schedule schedule (List.prefix_refl _) _ (Option.some_get enabled).symm
  exact sound.safe 0 rfl

/-- Both halves at work on a queue of size one that holds a message. -/
theorem sound_iff_clear_finds_empty_one_message :
    Always step (Sound 1) (initial 1 : System (Fin 1) 32 (List Nat) Nat)
        [(0, .enqueue 7 true), (0, .enter false), (0, .post)] ∧
      ∃ rest, ∃ final : System (Fin 1) 32 (List Nat) Nat, ∃ other,
        run step (initial 1)
            ([(0, .enqueue 7 true), (0, .enter false), (0, .post)] ++ (0, .clear) :: rest) =
          some final ∧ final.position other = .crashed := by
  have findsEmpty : Throughout step ClearFindsEmpty (initial 1 : System (Fin 1) 32 (List Nat) Nat)
      [(0, .enqueue 7 true), (0, .enter false), (0, .post)] :=
    throughout_clearFindsEmpty (by decide)
  have enabled : (run step (initial 1 : System (Fin 1) 32 (List Nat) Nat)
      [(0, .enqueue 7 true), (0, .enter false), (0, .post)]).isSome := by
    decide
  exact ⟨(sound_iff_clear_finds_empty 1).1 _ findsEmpty,
    (sound_iff_clear_finds_empty 1).2 _ _ 0 findsEmpty (by decide)
      (Option.some_get enabled).symm rfl (List.cons_ne_nil 7 [])⟩

end ZenMessageQueueSem
end BoostTest
