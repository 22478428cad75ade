import BoostTest.Lib.Potential
import BoostTest.Queue.SemCapacity

/-!
# How soon the calls of the semaphore queue are through

A call that has its token is never held up again: it enters the critical section and posts, two
steps of its own whatever the other threads do.  Once all calls are through, the losses so far tell
which waits can succeed: those for a slot while slots are left, and those for a message while
`clear` and exceptions have left tokens.
-/

namespace BoostTest
namespace ZenMessageQueueSem

open Execution Threads

variable {Thread C α : Type*} {width : Nat}

/-- A step of a call that has its token. -/
def isInternal : Action α → Bool
  | .enter _ => true
  | .post => true
  | _ => false

/-- A `timed_wait` that takes a token. -/
def takesToken : Action α → Bool
  | .enqueue _ bret => bret
  | .dequeue bret => bret
  | _ => false

/-- The steps a thread still needs to be through with its call. -/
def effort : Position α → Nat
  | .idle => 0
  | .enqueueHolding _ => 2
  | .enqueuePosting _ => 1
  | .dequeueHolding => 2
  | .dequeuePosting _ => 1
  | .crashed => 0

theorem effort_le (position : Position α) : effort position ≤ 2 := by
  cases position <;> simp [effort]

/-- A thread is through with its call, or has crashed in it. -/
theorem through_of_effort {position : Position α} (nothing : effort position = 0) :
    position = .idle ∨ position = .crashed := by
  cases position with
  | idle => exact .inl rfl
  | crashed => exact .inr rfl
  | _ => cases nothing

variable [Sequence C α]

/-- A step is paid for by the token it takes or by the fall of the effort. -/
theorem Does.effort_le {thread : Thread} {queue : Queue width C} {position : Position α}
    {action : Action α} {effect : Effect Thread width C α}
    (does : Does thread queue position action effect) :
    (isInternal action).toNat + effort effect.position ≤
      2 * (takesToken action).toNat + effort position := by
  cases does with
  | query answer reads =>
      rcases reads with ⟨rfl, _⟩ | ⟨rfl, _⟩ | ⟨rfl, _⟩ <;> exact Nat.zero_le _
  | _ => simp [isInternal, takesToken, effort]

section Own

variable [DecidableEq Thread]

/-- The same for one thread, whatever the others do. -/
theorem ownEffort_step (thread : Thread) {before after : System Thread width C α}
    {choice : Thread × Action α} (taken : step before choice = some after) :
    (decide (choice.1 = thread) && isInternal choice.2).toNat + effort (after.position thread) ≤
      2 * (decide (choice.1 = thread) && takesToken choice.2).toNat +
        effort (before.position thread) := by
  obtain ⟨effect, enabled, rfl⟩ := Threads.step_eq_some.mp taken
  have does := does_of_act enabled
  by_cases own : choice.1 = thread
  · subst own
    simpa using does.effort_le
  · rw [System.apply_position_other _ _ _ (Ne.symm own), does.alone]
    simp [own]

/-- Once a call has its token it takes two steps at most. -/
theorem own_steps_le {thread : Thread} {later : List (Thread × Action α)}
    {system final : System Thread width C α} (continued : run step system later = some final)
    (noToken : ∀ choice ∈ later, choice.1 = thread → takesToken choice.2 = false) :
    later.countP (fun choice => decide (choice.1 = thread) && isInternal choice.2) +
      effort (final.position thread) ≤ 2 := by
  have bound := countP_spends_le (fun _ _ _ => ownEffort_step thread) continued
  have nothing : (later.map fun choice =>
      2 * (decide (choice.1 = thread) && takesToken choice.2).toNat).sum = 0 := by
    refine List.sum_eq_zero fun price member => ?_
    obtain ⟨choice, taken, rfl⟩ := List.mem_map.mp member
    simpa using noToken choice taken
  rw [nothing, Nat.zero_add] at bound
  exact bound.trans (effort_le (system.position thread))

/-- A thread in the middle of a call can go on. -/
theorem exists_internal_step {system : System Thread width C α} {thread : Thread}
    (enter : step system (thread, .enter false) = none)
    (post : step system (thread, .post) = none) :
    system.position thread = .idle ∨ system.position thread = .crashed := by
  simp only [step, Threads.step, Option.map_eq_none_iff] at enter post
  cases position : system.position thread with
  | idle => exact .inl rfl
  | crashed => exact .inr rfl
  | enqueueHolding value =>
      rw [position] at enter
      cases enter
  | dequeueHolding =>
      rw [position] at enter
      simp only [act] at enter
      split at enter <;> cases enter
  | enqueuePosting value | dequeuePosting value =>
      rw [position] at post
      cases post

/-- So a call that has its token is never held up. -/
theorem exists_enabled {system : System Thread width C α} {thread : Thread}
    (running : system.position thread ≠ .idle) (sound : system.position thread ≠ .crashed) :
    ∃ action, isInternal action = true ∧ (step system (thread, action)).isSome := by
  by_contra! held
  have stuck (action : Action α) (internal : isInternal action = true) :
      step system (thread, action) = none := Option.not_isSome_iff_eq_none.mp (held action internal)
  rcases exists_internal_step (stuck (.enter false) rfl) (stuck .post rfl) with idle | crashed
  · exact running idle
  · exact sound crashed

end Own

variable [Fintype Thread] [DecidableEq Thread]

/-- The effort of all threads. -/
def totalEffort (system : System Thread width C α) : Nat := tally effort system.position

theorem totalEffort_step {before after : System Thread width C α} {choice : Thread × Action α}
    (taken : step before choice = some after) :
    (isInternal choice.2).toNat + totalEffort after ≤
      2 * (takesToken choice.2).toNat + totalEffort before := by
  obtain ⟨effect, enabled, rfl⟩ := Threads.step_eq_some.mp taken
  have does := does_of_act enabled
  have low := does.effort_le
  have moved := tally_update effort before.position choice.1 effect.position
  simp only [totalEffort, before.apply_position_of_id choice.1 effect does.alone]
  omega

/-- The steps of calls that have their token are covered by the tokens taken. -/
theorem internal_steps_add_effort_le {schedule : List (Thread × Action α)}
    {system final : System Thread width C α} (execution : run step system schedule = some final) :
    schedule.countP (fun choice => isInternal choice.2) + totalEffort final ≤
      2 * schedule.countP (fun choice => takesToken choice.2) + totalEffort system := by
  have bound := countP_spends_le (fun _ _ _ => totalEffort_step) execution
  simpa only [List.sum_map_mul_left, sum_toNat_eq_countP] using bound

omit [Fintype Thread] in
/-- An `enqueue` gets through the wait if it comes from an idle thread and finds a token. -/
theorem isSome_enqueue_iff {system : System Thread width C α} {thread : Thread} (value : α) :
    (step system (thread, .enqueue value true)).isSome ↔
      system.position thread = .idle ∧ 0 < system.shared.semFull := by
  cases position : system.position thread <;> cases tokens : system.shared.semFull <;>
    simp [step, Threads.step, act, timedWait, position, tokens]

omit [Fintype Thread] in
/-- The same for a `dequeue`. -/
theorem isSome_dequeue_iff {system : System Thread width C α} {thread : Thread} :
    (step system (thread, .dequeue true)).isSome ↔
      system.position thread = .idle ∧ 0 < system.shared.semEmpty := by
  cases position : system.position thread <;> cases tokens : system.shared.semEmpty <;>
    simp [step, Threads.step, act, timedWait, position, tokens]

/-- The calls in flight need two steps each at most, however they are scheduled. -/
theorem internal_run_length_le {inner : List (Thread × Action α)}
    {system after : System Thread width C α}
    (internal : ∀ choice ∈ inner, isInternal choice.2 = true)
    (continued : run step system inner = some after) :
    inner.length ≤ 2 * Fintype.card Thread := by
  have bound := internal_steps_add_effort_le continued
  have all : inner.countP (fun choice => isInternal choice.2) = inner.length :=
    List.countP_eq_length.mpr internal
  have noToken : inner.countP (fun choice => takesToken choice.2) = 0 := by
    refine List.countP_eq_zero.mpr fun choice member => ?_
    have own := internal choice member
    cases action : choice.2 <;> simp [action, isInternal, takesToken] at own ⊢
  have most : totalEffort system ≤ 2 * Fintype.card Thread := by
    have each := Finset.sum_le_card_nsmul Finset.univ
      (fun thread => effort (system.position thread)) 2 fun thread _ => effort_le _
    simpa [totalEffort, tally, Nat.mul_comm] using each
  rw [all, noToken] at bound
  omega

/-- With no call in flight the losses tell which tokens there are. -/
theorem tokens_of_resting {queueMaxSize : SizeT width} {system : System Thread width C α}
    (reach : Reachable step (initial queueMaxSize) system)
    (resting : ∀ thread, system.position thread = .idle ∨ system.position thread = .crashed) :
    system.shared.semFull + (system.shared.store.contents : List α).length +
        losses system.history = queueMaxSize.toNat ∧
      system.shared.semEmpty + failedDequeues system.history + count isCrashed system.position =
        (system.shared.store.contents : List α).length + discarded system.history := by
  have balanced := balanced_of_reachable reach
  have nobody (test : Position α → Bool) (testIdle : test .idle = false)
      (testCrashed : test .crashed = false) : count test system.position = 0 := by
    refine count_eq_zero_iff.mpr fun other => ?_
    rcases resting other with idle | crashed
    · rw [idle, testIdle]
    · rw [crashed, testCrashed]
  have slots := balanced.slots
  have messages := balanced.messages
  rw [nobody isEnqueueHolding rfl rfl, nobody isDequeuePosting rfl rfl] at slots
  rw [nobody isDequeueHolding rfl rfl, nobody isEnqueuePosting rfl rfl] at messages
  rw [losses]
  omega

/-- In every run, exceptions and `clear` calls included, the calls take two steps at most for each
token.  A call that has its token can always go on, and is through after two steps of its own
thread, whatever the others do.  From any state the calls in flight need two steps each at most,
however they are scheduled; and when none is left, a wait for a slot succeeds exactly while the
messages and the slots lost are fewer than the size of the queue, and a wait for a message exactly
while the messages and those thrown away are more than the tokens that exceptions and crashes have
used up. -/
theorem calls_settle (queueMaxSize : SizeT width) {schedule inner : List (Thread × Action α)}
    {system after : System Thread width C α}
    (execution : run step (initial queueMaxSize) schedule = some system)
    (internal : ∀ choice ∈ inner, isInternal choice.2 = true)
    (continued : run step system inner = some after) :
    schedule.countP (fun choice => isInternal choice.2) ≤
        2 * schedule.countP (fun choice => takesToken choice.2) ∧
      (∀ thread, system.position thread ≠ .idle → system.position thread ≠ .crashed →
        ∃ action, isInternal action = true ∧ (step system (thread, action)).isSome) ∧
      (∀ thread (later : List (Thread × Action α)) (final : System Thread width C α),
        run step system later = some final →
        (∀ choice ∈ later, choice.1 = thread → takesToken choice.2 = false) →
        later.countP (fun choice => decide (choice.1 = thread) && isInternal choice.2) ≤ 2 ∧
          (later.countP (fun choice => decide (choice.1 = thread) && isInternal choice.2) = 2 →
            final.position thread = .idle ∨ final.position thread = .crashed)) ∧
      inner.length ≤ 2 * Fintype.card Thread ∧
        ((∀ thread (action : Action α), isInternal action = true →
            step after (thread, action) = none) →
          ∀ thread, after.position thread = .crashed ∨
            (∀ value, (step after (thread, .enqueue value true)).isSome ↔
                (after.shared.store.contents : List α).length + losses after.history <
                  queueMaxSize.toNat) ∧
              ((step after (thread, .dequeue true)).isSome ↔
                failedDequeues after.history + count isCrashed after.position <
                  (after.shared.store.contents : List α).length + discarded after.history)) := by
  refine ⟨?_, fun thread => exists_enabled, fun thread later final continued noToken => ?_,
    internal_run_length_le internal continued, fun stuck thread => ?_⟩
  · have bound := internal_steps_add_effort_le execution
    have nobody : totalEffort (initial queueMaxSize : System Thread width C α) = 0 :=
      tally_const_zero fun _ => rfl
    omega
  · have few := own_steps_le continued noToken
    exact ⟨by omega, fun both => through_of_effort (by omega)⟩
  · have resting other :=
      exists_internal_step (stuck other (.enter false) rfl) (stuck other .post rfl)
    have reach : Reachable step (initial queueMaxSize) after :=
      ⟨schedule ++ inner, run_append_eq_some.mpr ⟨system, execution, continued⟩⟩
    obtain ⟨slots, messages⟩ := tokens_of_resting reach resting
    rcases resting thread with idle | crashed
    · refine .inr ⟨fun value => ?_, ?_⟩
      · rw [isSome_enqueue_iff]
        refine (and_iff_right idle).trans ?_
        omega
      · rw [isSome_dequeue_iff]
        refine (and_iff_right idle).trans ?_
        omega
    · exact .inl crashed

/-- A queue of size two that an exception has cost one slot, after two steps of the other call. -/
theorem calls_settle_lost_slot :
    ∃ schedule inner, ∃ system after : System (Fin 2) 32 (List Nat) Nat,
      run step (initial 2) schedule = some system ∧ run step system inner = some after ∧
        system.position 1 = .enqueueHolding 8 ∧ inner.length = 2 ∧
          (after.position 1 = .idle ∨ after.position 1 = .crashed) ∧ losses after.history = 1 ∧
            ((step after (0, .enqueue 9 true)).isSome ↔
              (after.shared.store.contents : List Nat).length + 1 < 2) := by
  let schedule : List (Fin 2 × Action Nat) :=
    [(0, .enqueue 7 true), (0, .enter true), (1, .enqueue 8 true)]
  let inner : List (Fin 2 × Action Nat) := [(1, .enter false), (1, .post)]
  have enabled : (run step (initial 2 : System (Fin 2) 32 (List Nat) Nat)
      (schedule ++ inner)).isSome := by
    decide
  let after := (run step (initial 2 : System (Fin 2) 32 (List Nat) Nat) (schedule ++ inner)).get
    enabled
  obtain ⟨system, execution, continued⟩ := run_append_eq_some.mp (Option.some_get enabled).symm
  obtain ⟨_, _, own, _, settles⟩ := calls_settle 2 execution (by decide) continued
  have through := (own 1 inner after continued (by decide)).2 (by decide)
  have stuck : ∀ thread (action : Action Nat), isInternal action = true →
      step after (thread, action) = none := by
    intro thread action internal
    cases action with
    | enter copyThrows | post => match thread with | 0 | 1 => rfl
    | _ => cases internal
  obtain crashed | ⟨waits, _⟩ := settles stuck 0
  · cases crashed
  · have holding : system.position 1 = .enqueueHolding 8 := by
      obtain rfl := Option.some.inj execution
      rfl
    exact ⟨schedule, inner, system, after, execution, continued, holding, rfl, through, rfl,
      waits 9⟩

end ZenMessageQueueSem
end BoostTest
