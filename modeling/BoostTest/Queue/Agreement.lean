import BoostTest.Queue.Sequential

/-!
# Where the two message queues agree

Called by one thread, the condition-variable queue decides by its counter and the semaphore queue by
its tokens.  The two go together until a `clear` throws messages away: their slots are then missing
from `sem_full_`, and their tokens are still in `sem_empty_`.  How many there are is determined by
the calls alone, and so is the first call that the two queues answer differently.
-/

namespace BoostTest

open CallSequence

variable {C α : Type*} {width : Nat}

/-- What the calls so far have left: the messages queued and the messages `clear` threw away. -/
structure Drift where
  queued : Nat
  lost : Nat
  deriving DecidableEq, Repr

namespace Drift

/-- The effect of a call on a queue of size `queueMaxSize`.  There is none where the lost messages
show: at an `enqueue` with no slots left but theirs, and at a `dequeue` with no messages left but
theirs. -/
def advance (queueMaxSize : Nat) (drift : Drift) : Call α → Option Drift
  | .enqueue _ =>
      if drift.queued = queueMaxSize then some drift
      else if drift.queued + drift.lost = queueMaxSize then none
      else some { drift with queued := drift.queued + 1 }
  | .dequeue =>
      if drift.queued = 0 then
        if drift.lost = 0 then some drift else none
      else some { drift with queued := drift.queued - 1 }
  | .clear => some { queued := 0, lost := drift.lost + drift.queued }
  | .size => some drift
  | .empty => some drift
  | .full => some drift

theorem advance_enqueue_eq_none {queueMaxSize : Nat} {drift : Drift} {value : α} :
    drift.advance queueMaxSize (.enqueue value) = none ↔
      drift.queued ≠ queueMaxSize ∧ drift.queued + drift.lost = queueMaxSize := by
  grind [advance]

theorem advance_dequeue_eq_none {queueMaxSize : Nat} {drift : Drift} :
    drift.advance queueMaxSize (.dequeue : Call α) = none ↔
      drift.queued = 0 ∧ drift.lost ≠ 0 := by
  grind [advance]

/-- Where nothing is lost, and nothing gets lost, the drift advances. -/
theorem exists_advance_of_nothing_lost {queueMaxSize : Nat} {drift : Drift}
    (nothingLost : drift.lost = 0) {input : Call α} (notClear : input ≠ .clear) :
    ∃ next, drift.advance queueMaxSize input = some next ∧ next.lost = 0 := by
  cases input with
  | clear => exact (notClear rfl).elim
  | _ => grind [advance]

end Drift

/-- Whether a sequence of calls on a new queue never meets what a `clear` has lost. -/
def agree (queueMaxSize : Nat) (calls : List (Call α)) : Bool :=
  (calls.foldlM (Drift.advance queueMaxSize) { queued := 0, lost := 0 }).isSome

/-- The simulation relation between the two queues. -/
structure Mirrors (queueMaxSize : SizeT width) (drift : Drift) (condi : Store width C)
    (sem : ZenMessageQueueSem.Queue width C) : Prop where
  same : sem.store = condi
  sameMax : condi.queueMaxSize = queueMaxSize
  counted : condi.queueCurSize.toNat = drift.queued
  slots : sem.semFull + drift.queued + drift.lost = queueMaxSize.toNat
  messages : sem.semEmpty = drift.queued + drift.lost

namespace Mirrors

variable {queueMaxSize : SizeT width} {drift next : Drift} {condi after : Store width C}
  {sem : ZenMessageQueueSem.Queue width C}

theorem construct (queueMaxSize : SizeT width) (messageQueue : C) :
    Mirrors queueMaxSize { queued := 0, lost := 0 } (Store.construct queueMaxSize messageQueue)
      (ZenMessageQueueSem.construct queueMaxSize messageQueue) where
  same := rfl
  sameMax := rfl
  counted := by simp [Store.construct]
  slots := rfl
  messages := rfl

theorem full_iff (mirrors : Mirrors queueMaxSize drift condi sem) :
    condi.queueCurSize = condi.queueMaxSize ↔ drift.queued = queueMaxSize.toNat := by
  rw [← mirrors.counted, mirrors.sameMax, BitVec.toNat_inj]

theorem empty_iff (mirrors : Mirrors queueMaxSize drift condi sem) :
    condi.queueCurSize = 0 ↔ drift.queued = 0 := by
  rw [← mirrors.counted, SizeT.eq_zero_iff]

variable [Container C α]

/-- Where the drift can advance, `enqueue` does the same to both queues. -/
theorem enqueue (mirrors : Mirrors queueMaxSize drift condi sem) (value : α)
    (advanced : drift.advance queueMaxSize.toNat (.enqueue value) = some next) :
    (ZenMessageQueueSem.enqueue sem value).1 = (ZenMessageQueueCondi.enqueue condi value).1 ∧
      Mirrors queueMaxSize next (ZenMessageQueueCondi.enqueue condi value).2
        (ZenMessageQueueSem.enqueue sem value).2 := by
  have slots := mirrors.slots
  have fullIff := mirrors.full_iff
  simp only [Drift.advance] at advanced
  split at advanced
  case isTrue isFull =>
    cases advanced
    have noToken : sem.semFull = 0 := by omega
    rw [ZenMessageQueueSem.enqueue_of_no_token noToken, ZenMessageQueueCondi.enqueue,
      if_pos (fullIff.mpr isFull)]
    exact ⟨rfl, mirrors⟩
  case isFalse notFull =>
    split at advanced <;> cases advanced
    case isFalse.refl room =>
      have positive : 0 < sem.semFull := by omega
      obtain ⟨left, token⟩ := Nat.exists_eq_add_one.mpr positive
      rw [ZenMessageQueueSem.enqueue_of_token token, ZenMessageQueueCondi.enqueue,
        if_neg (mt fullIff.mp notFull)]
      refine ⟨rfl, by rw [mirrors.same], mirrors.sameMax, ?_, by simp only; omega, ?_⟩
      · have below : condi.queueCurSize.toNat < queueMaxSize.toNat := by
          rw [mirrors.counted]
          omega
        rw [Store.enqueueBody_queueCurSize, SizeT.toNat_increment below, mirrors.counted]
      · simp only [mirrors.messages]
        omega

/-- Where the drift can advance, `dequeue` does the same to both queues. -/
theorem dequeue (mirrors : Mirrors queueMaxSize drift condi sem) {answer : Answer α}
    (advanced : drift.advance queueMaxSize.toNat (.dequeue : Call α) = some next)
    (called : ZenMessageQueueCondi.dequeue condi = some (answer, after)) :
    ∃ twin, ZenMessageQueueSem.dequeue sem = some (answer, twin) ∧
      Mirrors queueMaxSize next after twin := by
  have messages := mirrors.messages
  have emptyIff := mirrors.empty_iff
  simp only [Drift.advance] at advanced
  split at advanced
  case isTrue isEmpty =>
    split at advanced <;> cases advanced
    case isTrue.refl nothingLost =>
      rw [ZenMessageQueueCondi.dequeue, if_pos (emptyIff.mpr isEmpty)] at called
      cases called
      have noToken : sem.semEmpty = 0 := by omega
      exact ⟨sem, ZenMessageQueueSem.dequeue_of_no_token noToken, mirrors⟩
  case isFalse notEmpty =>
    cases advanced
    rw [ZenMessageQueueCondi.dequeue, if_neg (mt emptyIff.mp notEmpty)] at called
    split at called <;> cases called
    case h_1.refl value done =>
      have positive : 0 < sem.semEmpty := by omega
      obtain ⟨left, token⟩ := Nat.exists_eq_add_one.mpr positive
      obtain ⟨sameMax, oneLess⟩ := Store.counters_of_dequeueBody done
      have slots := mirrors.slots
      have counted := mirrors.counted
      have twinDone : sem.store.dequeueBody false = .done value after := by rw [mirrors.same, done]
      refine ⟨_, ZenMessageQueueSem.dequeue_of_done token twinDone, rfl,
        sameMax.trans mirrors.sameMax, ?_, ?_, ?_⟩
      · rw [oneLess, SizeT.toNat_decrement (by omega), counted]
      · simp only
        omega
      · simp only
        omega

/-- Where the drift can advance, the semaphore queue follows the condition-variable queue. -/
theorem call (mirrors : Mirrors queueMaxSize drift condi sem) {input : Call α} {answer : Answer α}
    (advanced : drift.advance queueMaxSize.toNat input = some next)
    (called : ZenMessageQueueCondi.call condi input = some (answer, after)) :
    ∃ twin, ZenMessageQueueSem.call sem input = some (answer, twin) ∧
      Mirrors queueMaxSize next after twin := by
  cases input with
  | enqueue value =>
      obtain ⟨sameAnswer, still⟩ := mirrors.enqueue value advanced
      have pair : ZenMessageQueueCondi.enqueue condi value = (answer, after) :=
        Option.some.inj called
      rw [pair] at sameAnswer still
      exact ⟨_, congrArg some (Prod.ext sameAnswer rfl), still⟩
  | dequeue => exact mirrors.dequeue advanced called
  | clear =>
      cases called
      cases advanced
      have slots := mirrors.slots
      have messages := mirrors.messages
      exact ⟨_, rfl, by rw [mirrors.same], mirrors.sameMax, by simp, by simp only; omega,
        by simp only; omega⟩
  | size =>
      cases called
      cases advanced
      exact ⟨sem, by simp [ZenMessageQueueSem.call, mirrors.same], mirrors⟩
  | empty =>
      cases called
      cases advanced
      exact ⟨sem, by simp [ZenMessageQueueSem.call, mirrors.same], mirrors⟩
  | full =>
      cases called
      cases advanced
      exact ⟨sem, by simp [ZenMessageQueueSem.call, mirrors.same], mirrors⟩

/-- Where the drift cannot advance, the answers differ. -/
theorem differ (mirrors : Mirrors queueMaxSize drift condi sem) {input : Call α}
    {answer : Answer α} (stuck : drift.advance queueMaxSize.toNat input = none)
    (called : ZenMessageQueueCondi.call condi input = some (answer, after))
    (twin : ZenMessageQueueSem.Queue width C) :
    ZenMessageQueueSem.call sem input ≠ some (answer, twin) := by
  have slots := mirrors.slots
  have messages := mirrors.messages
  cases input with
  | enqueue value =>
      obtain ⟨notFull, noSlot⟩ := Drift.advance_enqueue_eq_none.mp stuck
      have noToken : sem.semFull = 0 := by omega
      rw [ZenMessageQueueCondi.call, ZenMessageQueueCondi.enqueue,
        if_neg (mt mirrors.full_iff.mp notFull)] at called
      cases called
      simp [ZenMessageQueueSem.call, ZenMessageQueueSem.enqueue_of_no_token noToken]
  | dequeue =>
      obtain ⟨isEmpty, lost⟩ := Drift.advance_dequeue_eq_none.mp stuck
      have positive : 0 < sem.semEmpty := by omega
      obtain ⟨left, token⟩ := Nat.exists_eq_add_one.mpr positive
      rw [ZenMessageQueueCondi.call, ZenMessageQueueCondi.dequeue,
        if_pos (mirrors.empty_iff.mpr isEmpty)] at called
      cases called
      exact ZenMessageQueueSem.dequeue_ne_refused token twin
  | _ => cases stuck

/-- Where nothing is lost, the condition-variable queue follows the semaphore queue as well. -/
theorem call_of_sem (mirrors : Mirrors queueMaxSize drift condi sem)
    (nothingLost : drift.lost = 0) {input : Call α} (notClear : input ≠ .clear)
    {answer : Answer α} {twin : ZenMessageQueueSem.Queue width C}
    (called : ZenMessageQueueSem.call sem input = some (answer, twin)) :
    ∃ after drift', ZenMessageQueueCondi.call condi input = some (answer, after) ∧
      drift'.lost = 0 ∧ Mirrors queueMaxSize drift' after twin := by
  obtain ⟨drift', advanced, stillNothing⟩ :=
    @Drift.exists_advance_of_nothing_lost α queueMaxSize.toNat drift nothingLost input notClear
  obtain ⟨answer', after, called'⟩ : ∃ answer' after,
      ZenMessageQueueCondi.call condi input = some (answer', after) := by
    cases input with
    | dequeue =>
        by_cases isEmpty : condi.queueCurSize = 0
        · exact ⟨_, _, by rw [ZenMessageQueueCondi.call, ZenMessageQueueCondi.dequeue,
            if_pos isEmpty]⟩
        · have messages := mirrors.messages
          have queued := mt mirrors.empty_iff.mpr isEmpty
          have positive : 0 < sem.semEmpty := by omega
          obtain ⟨left, token⟩ := Nat.exists_eq_add_one.mpr positive
          obtain ⟨value, shorter, done⟩ := ZenMessageQueueSem.exists_done_of_dequeue token called
          rw [mirrors.same] at done
          exact ⟨_, _, by
            simp only [ZenMessageQueueCondi.call, ZenMessageQueueCondi.dequeue, if_neg isEmpty,
              done]; rfl⟩
    | _ => exact ⟨_, _, rfl⟩
  obtain ⟨twin', twinCalled, still⟩ := mirrors.call advanced called'
  obtain ⟨rfl, rfl⟩ := Prod.mk.inj (Option.some.inj (called.symm.trans twinCalled))
  exact ⟨after, drift', called', stillNothing, still⟩

/-- A semaphore queue that is never cleared gives the answers of the condition-variable queue, over
the same container. -/
theorem execute_of_sem (mirrors : Mirrors queueMaxSize drift condi sem)
    (nothingLost : drift.lost = 0) {calls : List (Call α)}
    (noClear : ∀ input ∈ calls, input ≠ .clear) {answers : List (Answer α)}
    {twin : ZenMessageQueueSem.Queue width C}
    (executed : execute ZenMessageQueueSem.call sem calls = some (answers, twin)) :
    execute ZenMessageQueueCondi.call condi calls = some (answers, twin.store) := by
  obtain ⟨final, ran, _, _, still⟩ := @execute_follows _ _ _ _ ZenMessageQueueSem.call
    ZenMessageQueueCondi.call
    (fun sem condi => ∃ drift : Drift, drift.lost = 0 ∧ Mirrors queueMaxSize drift condi sem)
    (fun input => input ≠ .clear)
    (by
      rintro before condi input answer after ⟨drift, nothingLost, mirrors⟩ notClear called
      obtain ⟨next, drift', called', stillNothing, still⟩ :=
        mirrors.call_of_sem nothingLost notClear called
      exact ⟨next, called', drift', stillNothing, still⟩)
    calls noClear sem twin condi ⟨drift, nothingLost, mirrors⟩ answers executed
  rw [ran, still.same]

end Mirrors

variable [Sequence C α]

/-- The answers of a new `zen_message_queue_condi` over `C`. -/
def ZenMessageQueueCondi.answers (C : Type*) [Sequence C α] (queueMaxSize : SizeT width)
    (calls : List (Call α)) : Option (List (Answer α)) :=
  outputs call (Store.construct queueMaxSize (Sequence.empty : C)) calls

/-- The answers of a new `zen_message_queue_sem` over `C`. -/
def ZenMessageQueueSem.answers (C : Type*) [Sequence C α] (queueMaxSize : SizeT width)
    (calls : List (Call α)) : Option (List (Answer α)) :=
  outputs call (construct queueMaxSize (Sequence.empty : C)) calls

/-- A condition-variable queue that has just been cleared has all its room and no message. -/
theorem ZenMessageQueueCondi.execute_after_clear {queueMaxSize : SizeT width}
    {queue : Store width C} (sameMax : queue.queueMaxSize = queueMaxSize) :
    (∀ (values : List α) (last : α), values.length = queueMaxSize.toNat →
      ∃ final, execute call queue (.clear :: (values.map .enqueue ++ [.enqueue last])) =
        some (.clear :: (values.map (Answer.enqueue · 0) ++ [.enqueue last (-1)]), final)) ∧
      ∀ attempts, ∃ final,
        execute call queue (.clear :: List.replicate attempts (.dequeue : Call α)) =
          some (.clear :: List.replicate attempts (.dequeue (-1) none), final) := by
  have empty : queue.clear.queueCurSize.toNat = 0 := by simp
  constructor
  · intro values last all
    obtain ⟨full, accepted, counted, stillMax⟩ :=
      @execute_enqueues C α width _ queue.clear values (by simp [all, sameMax])
    have isFull : full.queueCurSize = full.queueMaxSize := by
      apply BitVec.toNat_inj.mp
      rw [counted, empty, all, stillMax, Store.clear_queueMaxSize, sameMax, Nat.zero_add]
    have refused : execute call full [.enqueue last] = some ([.enqueue last (-1)], full) := by
      simp [execute, call, enqueue, isFull]
    exact ⟨full, execute_cons_eq_some.mpr ⟨_, _, _, rfl,
      execute_append_eq_some.mpr ⟨_, _, _, accepted, refused, rfl⟩, rfl⟩⟩
  · intro attempts
    exact ⟨_, execute_cons_eq_some.mpr
      ⟨_, _, _, rfl, execute_dequeues queue.clear_queueCurSize attempts, rfl⟩⟩

/-- The two queues, new and of one size, give the same answers to exactly those sequences of calls
that never meet what a `clear` has lost.  After a `clear` the condition-variable queue accepts
`queue_max_size_` messages and no more, and until one is accepted refuses every `dequeue`; so the
semaphore queue does too exactly where the two agree. -/
theorem answers_eq_iff_agree (queueMaxSize : SizeT width) (calls : List (Call α)) :
    (ZenMessageQueueCondi.answers C queueMaxSize calls =
        ZenMessageQueueSem.answers C queueMaxSize calls ↔
      agree queueMaxSize.toNat calls = true) ∧
      ∃ before, ZenMessageQueueCondi.answers C queueMaxSize calls = some before ∧
        (∀ (values : List α) (last : α), values.length = queueMaxSize.toNat →
          ZenMessageQueueCondi.answers C queueMaxSize
              (calls ++ .clear :: (values.map .enqueue ++ [.enqueue last])) =
            some (before ++
              .clear :: (values.map (Answer.enqueue · 0) ++ [.enqueue last (-1)]))) ∧
          ∀ attempts,
            ZenMessageQueueCondi.answers C queueMaxSize
                (calls ++ .clear :: List.replicate attempts .dequeue) =
              some (before ++ .clear :: List.replicate attempts (.dequeue (-1) none)) := by
  have starts : (Store.construct queueMaxSize (Sequence.empty : C)).Valid := .construct queueMaxSize
  constructor
  · refine outputs_eq_iff
      (fun drift condi sem => condi.Valid ∧ Mirrors queueMaxSize drift condi sem)
      ?_ ?_ ?_ ⟨starts, .construct queueMaxSize Sequence.empty⟩ calls
    · rintro drift condi sem input next ⟨valid, mirrors⟩ advanced
      obtain ⟨answer, after, called, validAfter, _⟩ :=
        ZenMessageQueueCondi.exists_call_of_valid condi input valid
      obtain ⟨twin, twinCalled, still⟩ := mirrors.call advanced called
      exact ⟨answer, after, twin, called, twinCalled, validAfter, still⟩
    · rintro drift condi sem input ⟨_, mirrors⟩ stuck answer after twin called
      exact mirrors.differ stuck called twin
    · rintro drift condi sem ⟨valid, _⟩ inputs
      obtain ⟨answers, final, executed, _⟩ :=
        ZenMessageQueueCondi.exists_execute_of_valid valid inputs
      exact Option.isSome_iff_exists.mpr ⟨answers, outputs_eq_some.mpr ⟨final, executed⟩⟩
  · obtain ⟨before, middle, executed, _, sameMax⟩ :=
      ZenMessageQueueCondi.exists_execute_of_valid starts calls
    obtain ⟨accepts, refuses⟩ := ZenMessageQueueCondi.execute_after_clear sameMax
    refine ⟨before, outputs_eq_some.mpr ⟨middle, executed⟩, ?_, ?_⟩
    · intro values last all
      obtain ⟨final, continued⟩ := accepts values last all
      exact outputs_eq_some.mpr ⟨final, execute_append_eq_some.mpr
        ⟨middle, before, _, executed, continued, rfl⟩⟩
    · intro attempts
      obtain ⟨final, continued⟩ := refuses attempts
      exact outputs_eq_some.mpr ⟨final, execute_append_eq_some.mpr
        ⟨middle, before, _, executed, continued, rfl⟩⟩

/-- On a queue of size one a `clear` costs the semaphore queue its only slot. -/
theorem answers_differ_after_clear :
    ZenMessageQueueCondi.answers (List Nat) (1 : SizeT 32) [.enqueue 7, .clear, .enqueue 8] ≠
      ZenMessageQueueSem.answers (List Nat) (1 : SizeT 32) [.enqueue 7, .clear, .enqueue 8] := by
  decide

end BoostTest
