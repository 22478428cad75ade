import BoostTest.Queue.SemTokens
import BoostTest.Queue.Sequential

/-!
# The capacity a semaphore queue has left

An `enqueue` left by an exception and a message thrown away by `clear` each cost a slot.  No later
call gives one back, so `queue_max_size_` less these losses is what the queue can hold from then on,
and it can hold as much.
-/

namespace BoostTest
namespace ZenMessageQueueSem

open CallSequence Execution Threads

variable {Thread C α : Type*} {width : Nat}

/-- The slots a run has lost. -/
def losses (history : List (Event Thread α)) : Nat := failedEnqueues history + discarded history

theorem losses_le_of_prefix {earlier later : List (Event Thread α)} (isPrefix : earlier <+: later) :
    losses earlier ≤ losses later := by
  obtain ⟨rest, rfl⟩ := isPrefix
  rw [losses, losses, failedEnqueues_append, discarded_append]
  omega

section Calls

variable [Container C α]

/-- As many messages are accepted as there are tokens. -/
theorem execute_enqueues {queue : Queue width C} {values : List α}
    (tokens : queue.semFull = values.length) :
    ∃ final, execute call queue (values.map .enqueue) =
        some (values.map (Answer.enqueue · 0), final) ∧ final.semFull = 0 := by
  induction values generalizing queue with
  | nil => exact ⟨queue, rfl, tokens⟩
  | cons value values induction =>
      have accepted := enqueue_of_token tokens value
      obtain ⟨final, executed, spent⟩ := @induction (enqueue queue value).2 (by rw [accepted])
      refine ⟨final, execute_cons_eq_some.mpr ⟨_, _, _, ?_, executed, rfl⟩, spent⟩
      rw [call, accepted]

end Calls

variable [Sequence C α] [Fintype Thread] [DecidableEq Thread]

/-- Slots once lost are missing in every state of every continuation. -/
theorem contents_add_losses_le {queueMaxSize : SizeT width} {system after : System Thread width C α}
    (reach : Reachable step (initial queueMaxSize) system) {schedule : List (Thread × Action α)}
    (continued : run step system schedule = some after) :
    after.shared.semFull + (after.shared.store.contents : List α).length +
      losses system.history ≤ queueMaxSize.toNat := by
  obtain ⟨front, execution⟩ := reach
  have reachAfter : Reachable step (initial queueMaxSize) after :=
    ⟨front ++ schedule, run_append_eq_some.mpr ⟨system, execution, continued⟩⟩
  have slots := (balanced_of_reachable reachAfter).slots
  have grown := losses_le_of_prefix (history_prefix_of_run continued)
  rw [losses, losses] at grown
  rw [losses]
  omega

/-- The size of the queue less the slots lost so far is a bound on its messages in every
continuation, and where all are lost no `enqueue` gets through any more.  With no call in flight it
is what one thread can fill the queue to, and no further. -/
theorem effective_capacity {queueMaxSize : SizeT width} {system : System Thread width C α}
    (reach : Reachable step (initial queueMaxSize) system) :
    (∀ schedule (after : System Thread width C α), run step system schedule = some after →
      (after.shared.store.contents : List α).length + losses system.history ≤
          queueMaxSize.toNat ∧
        (losses system.history = queueMaxSize.toNat → ∀ thread (value : α),
          step after (thread, .enqueue value true) = none)) ∧
      ((∀ thread, system.position thread = .idle) → ∀ (values : List α) (last : α),
        values.length + (system.shared.store.contents : List α).length +
            losses system.history = queueMaxSize.toNat →
        ∃ final, execute call system.shared (values.map .enqueue ++ [.enqueue last]) =
          some (values.map (Answer.enqueue · 0) ++ [.enqueue last (-1)], final)) := by
  constructor
  · intro schedule after continued
    have bound := contents_add_losses_le reach continued
    refine ⟨by omega, fun exhausted thread value => ?_⟩
    have noToken : after.shared.semFull = 0 := by omega
    simp only [step, Threads.step, Option.map_eq_none_iff, act, noToken, timedWait]
    cases after.position thread <;> rfl
  · intro quiescent values last fills
    have nobody (test : Position α → Bool) (testIdle : test .idle = false) :
        count test system.position = 0 := count_eq_zero_of_idle quiescent testIdle
    have slots := (balanced_of_reachable reach).slots
    rw [nobody isEnqueueHolding rfl, nobody isDequeuePosting rfl] at slots
    rw [losses] at fills
    obtain ⟨full, accepted, noToken⟩ := @execute_enqueues _ _ _ _ system.shared values (by omega)
    have refused : execute call full [.enqueue last] = some ([.enqueue last (-1)], full) := by
      simp [execute, call, enqueue_of_no_token noToken]
    exact ⟨full, execute_append_eq_some.mpr ⟨full, _, _, accepted, refused, rfl⟩⟩

/-- A queue of size two that has lost one slot to an exception and the other to a `clear`. -/
theorem effective_capacity_exhausted :
    ∃ schedule, ∃ system : System (Fin 1) 32 (List Nat) Nat,
      run step (initial 2) schedule = some system ∧ losses system.history = 2 ∧
        ∃ final, execute call system.shared [.enqueue 9] = some ([.enqueue 9 (-1)], final) := by
  let schedule : List (Fin 1 × Action Nat) :=
    [(0, .enqueue 7 true), (0, .enter true), (0, .enqueue 8 true), (0, .enter false), (0, .post),
      (0, .clear)]
  have enabled : (run step (initial 2 : System (Fin 1) 32 (List Nat) Nat) schedule).isSome := by
    decide
  have idle : ∀ thread, ((run step (initial 2 : System (Fin 1) 32 (List Nat) Nat) schedule).get
      enabled).position thread = .idle := by
    intro thread
    match thread with
    | 0 => rfl
  exact ⟨schedule, _, (Option.some_get enabled).symm, rfl,
    (effective_capacity (Reachable.of_isSome schedule enabled)).2 idle [] 9 rfl⟩

end ZenMessageQueueSem
end BoostTest
