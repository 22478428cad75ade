import BoostTest.Queue.Ring
import Mathlib.Data.List.DropRight

/-!
# What the ring-buffer queues do

The default elements a ring starts with leave it one by one, each time it holds more messages than
ever before.  Until then they stand in front of the messages, so each `dequeue` yields an element
that is older than it should be by the number of those left.  `LateQueue` says this without a
buffer: it keeps all the messages it was given since it was cleared, and the most it held at once.
-/

namespace BoostTest

open CallSequence

variable {α : Type*} {width : Nat}

namespace Answer

/-- Whether the call is a `clear`. -/
def isClear : Answer α → Bool
  | clear => true
  | _ => false

/-- The results of the calls after the last `clear`. -/
def sinceClear (answers : List (Answer α)) : List (Answer α) :=
  answers.rtakeWhile fun answer => !answer.isClear

@[simp]
theorem sinceClear_clear (answers : List (Answer α)) : sinceClear (answers ++ [.clear]) = [] :=
  List.rtakeWhile_concat_neg _ _ _ (by simp [isClear])

theorem sinceClear_of_not_clear {answer : Answer α} (other : answer.isClear = false)
    (answers : List (Answer α)) :
    sinceClear (answers ++ [answer]) = sinceClear answers ++ [answer] :=
  List.rtakeWhile_concat_pos _ _ _ (by simp [other])

end Answer

/-- A queue that is behind with its messages. -/
structure LateQueue (α : Type*) where
  capacity : Nat
  /-- The most messages held at once. -/
  mark : Nat
  /-- The messages accepted since the last `clear`. -/
  accepted : List α
  /-- How many calls of `dequeue` went through since then. -/
  taken : Nat

namespace LateQueue

/-- A new queue. -/
def new (capacity : Nat) : LateQueue α where
  capacity := capacity
  mark := 0
  accepted := []
  taken := 0

/-- The number of messages accepted and not taken. -/
def queued (queue : LateQueue α) : Nat := queue.accepted.length - queue.taken

/-- All that can be taken: as many default elements as there is room, and then the messages. -/
def stream [Inhabited α] (queue : LateQueue α) : List α :=
  List.replicate queue.capacity default ++ queue.accepted

def enqueue (queue : LateQueue α) (value : α) : Answer α × LateQueue α :=
  if queue.queued = queue.capacity then (.enqueue value (-1), queue)
  else
    (.enqueue value 0,
      { queue with
        mark := max queue.mark (queue.queued + 1)
        accepted := queue.accepted ++ [value] })

/-- The elements before the mark are gone, those behind it come in order. -/
def dequeue [Inhabited α] (queue : LateQueue α) : Option (Answer α × LateQueue α) :=
  if queue.queued = 0 then some (.dequeue (-1) none, queue)
  else
    queue.stream[queue.mark + queue.taken]?.map fun value =>
      (.dequeue 0 (some value), { queue with taken := queue.taken + 1 })

/-- Any call.  A `clear` removes the default elements as well. -/
def call [Inhabited α] (queue : LateQueue α) : Call α → Option (Answer α × LateQueue α)
  | .enqueue value => some (queue.enqueue value)
  | .dequeue => queue.dequeue
  | .clear => some (.clear, { queue with mark := queue.capacity, accepted := [], taken := 0 })
  | .size => some (.size queue.queued, queue)
  | .empty => some (.empty (queue.queued == 0), queue)
  | .full => some (.full (queue.queued == queue.capacity), queue)

@[simp]
theorem length_stream [Inhabited α] (queue : LateQueue α) :
    queue.stream.length = queue.capacity + queue.accepted.length := by
  simp [stream]

/-- What the late queue remembers of the calls answered so far. -/
structure Remembers (answers : List (Answer α)) (queue : LateQueue α) : Prop where
  accepted : queue.accepted = (Answer.sinceClear answers).flatMap Answer.accepted
  taken : queue.taken = ((Answer.sinceClear answers).flatMap Answer.received).length

namespace Remembers

variable {answers : List (Answer α)} {answer : Answer α} {queue after : LateQueue α}

/-- Any call but `clear` adds to what is remembered. -/
theorem add (remembers : Remembers answers queue) (other : answer.isClear = false)
    (accepted : after.accepted = queue.accepted ++ answer.accepted)
    (taken : after.taken = queue.taken + answer.received.length) :
    Remembers (answers ++ [answer]) after where
  accepted := by
    rw [accepted, remembers.accepted, Answer.sinceClear_of_not_clear other, List.flatMap_append,
      List.flatMap_singleton]
  taken := by
    rw [taken, remembers.taken, Answer.sinceClear_of_not_clear other, List.flatMap_append,
      List.flatMap_singleton, List.length_append]

theorem call [Inhabited α] {input : Call α} (remembers : Remembers answers queue)
    (called : queue.call input = some (answer, after)) : Remembers (answers ++ [answer]) after := by
  cases input with
  | enqueue value =>
      rw [LateQueue.call, enqueue] at called
      split at called <;> cases called
      case isTrue.refl => exact remembers.add rfl (List.append_nil _).symm rfl
      case isFalse.refl => exact remembers.add rfl rfl rfl
  | dequeue =>
      rw [LateQueue.call, dequeue] at called
      split at called
      case isTrue =>
        cases called
        exact remembers.add rfl (List.append_nil _).symm rfl
      case isFalse =>
        obtain ⟨value, _, answered⟩ := Option.map_eq_some_iff.mp called
        cases answered
        exact remembers.add rfl (List.append_nil _).symm rfl
  | clear =>
      cases called
      constructor
      case accepted => rw [Answer.sinceClear_clear, List.flatMap_nil]
      case taken => rw [Answer.sinceClear_clear, List.flatMap_nil, List.length_nil]
  | size | empty | full =>
      cases called
      exact remembers.add rfl (List.append_nil _).symm rfl

theorem execute [Inhabited α] {calls : List (Call α)} {later : List (Answer α)}
    (remembers : Remembers answers queue)
    (executed : execute LateQueue.call queue calls = some (later, after)) :
    Remembers (answers ++ later) after := by
  induction calls generalizing answers queue later with
  | nil =>
      obtain ⟨rfl, rfl⟩ := Prod.mk.inj (Option.some.inj executed)
      rwa [List.append_nil]
  | cons input calls induction =>
      obtain ⟨answer, next, rest, called, continued, rfl⟩ := execute_cons_eq_some.mp executed
      have remembersAfter := induction (remembers.call called) continued
      rwa [List.append_assoc, List.singleton_append] at remembersAfter

end Remembers

end LateQueue

/-- A ring that is not empty gives its oldest element away. -/
theorem exists_dequeueBody {ring : Store width (CircularBuffer α)} {value : α} {rest : List α}
    (elements : ring.messageQueue.elements = value :: rest) :
    ∃ after, ring.dequeueBody false = .done value after ∧ after.messageQueue.elements = rest ∧
      after.messageQueue.capacity = ring.messageQueue.capacity := by
  obtain ⟨maxSize, curSize, capacity, _, fits⟩ := ring
  obtain rfl := elements
  exact ⟨_, rfl, rfl, rfl⟩

/-- The ring holds what the late queue can still hand out. -/
structure Delayed [Inhabited α] (ring : Store width (CircularBuffer α)) (late : LateQueue α) :
    Prop where
  sized : ring.queueMaxSize.toNat = late.capacity
  roomy : ring.messageQueue.capacity = late.capacity
  taken : late.taken ≤ late.accepted.length
  counted : ring.queueCurSize.toNat = late.queued
  marked : late.queued ≤ late.mark
  within : late.mark ≤ late.capacity
  elements : ring.messageQueue.elements = late.stream.drop (late.mark + late.taken)

namespace Delayed

variable [Inhabited α] {ring : Store width (CircularBuffer α)} {late : LateQueue α}

theorem construct (queueMaxSize : SizeT width) :
    Delayed (ZenMessageQueueCondi.constructRing queueMaxSize)
      (LateQueue.new queueMaxSize.toNat : LateQueue α) where
  sized := rfl
  roomy := CircularBuffer.capacity_resize_empty queueMaxSize.toNat
  taken := Nat.zero_le 0
  counted := SizeT.eq_zero_iff.mp rfl
  marked := Nat.zero_le 0
  within := Nat.zero_le _
  elements := by
    simp [ZenMessageQueueCondi.constructRing, Store.construct, LateQueue.stream, LateQueue.new]

/-- The default elements still in the ring are those above the mark. -/
theorem length_elements (delayed : Delayed ring late) :
    ring.messageQueue.elements.length + late.mark = late.capacity + late.queued := by
  have taken := delayed.taken
  have within := delayed.within
  rw [delayed.elements, List.length_drop, LateQueue.length_stream, LateQueue.queued]
  omega

theorem full_iff (delayed : Delayed ring late) :
    ring.queueCurSize = ring.queueMaxSize ↔ late.queued = late.capacity := by
  rw [← delayed.counted, ← delayed.sized, BitVec.toNat_inj]

theorem empty_iff (delayed : Delayed ring late) : ring.queueCurSize = 0 ↔ late.queued = 0 := by
  rw [← delayed.counted, SizeT.eq_zero_iff]

/-- A message that raises the mark pushes the oldest element out, any other one is appended. -/
theorem elements_pushBack (delayed : Delayed ring late) (value : α) :
    (ring.messageQueue.pushBack value).elements =
      (late.stream ++ [value]).drop (max late.mark (late.queued + 1) + late.taken) := by
  have held := delayed.length_elements
  have marked := delayed.marked
  have within := delayed.within
  have taken := delayed.taken
  have gone : late.mark + late.taken ≤ late.stream.length := by
    rw [LateQueue.length_stream]
    omega
  have appended : ring.messageQueue.elements ++ [value] =
      (late.stream ++ [value]).drop (late.mark + late.taken) := by
    rw [List.drop_append_of_le_length gone, delayed.elements]
  by_cases raises : late.queued = late.mark
  · have full : ring.messageQueue.elements.length = ring.messageQueue.capacity := by
      rw [delayed.roomy]
      omega
    rw [CircularBuffer.elements_pushBack_of_full full, appended, List.tail_drop]
    congr 1
    omega
  · have room : ring.messageQueue.elements.length < ring.messageQueue.capacity := by
      rw [delayed.roomy]
      omega
    rw [CircularBuffer.elements_pushBack_of_room room, appended]
    congr 1
    omega

theorem enqueue (delayed : Delayed ring late) (value : α) :
    (ZenMessageQueueCondi.enqueue ring value).1 = (late.enqueue value).1 ∧
      Delayed (ZenMessageQueueCondi.enqueue ring value).2 (late.enqueue value).2 := by
  rw [ZenMessageQueueCondi.enqueue, LateQueue.enqueue]
  by_cases isFull : late.queued = late.capacity
  · rw [if_pos isFull, if_pos (delayed.full_iff.mpr isFull)]
    exact ⟨rfl, delayed⟩
  · rw [if_neg isFull, if_neg (mt delayed.full_iff.mp isFull)]
    refine ⟨rfl, ?_⟩
    have pushed := delayed.elements_pushBack value
    obtain ⟨sized, roomy, taken, counted, marked, within, _⟩ := delayed
    have below : ring.queueCurSize.toNat < ring.queueMaxSize.toNat := by omega
    have oneMore : (late.accepted ++ [value]).length - late.taken = late.queued + 1 := by
      rw [List.length_append, List.length_singleton, LateQueue.queued]
      omega
    constructor
    case sized => exact sized
    case roomy => exact roomy
    case taken =>
      dsimp only
      rw [List.length_append]
      omega
    case counted =>
      rw [Store.enqueueBody_queueCurSize, SizeT.toNat_increment below, counted]
      exact oneMore.symm
    case marked => exact oneMore.le.trans (le_max_right _ _)
    case within =>
      dsimp only
      omega
    case elements =>
      refine pushed.trans ?_
      simp [LateQueue.stream]

/-- What `dequeue` takes is the first element behind the mark that was not taken. -/
theorem dequeue (delayed : Delayed ring late) :
    ∃ answer after lateAfter, ZenMessageQueueCondi.dequeue ring = some (answer, after) ∧
      late.dequeue = some (answer, lateAfter) ∧ Delayed after lateAfter := by
  by_cases isEmpty : late.queued = 0
  · exact ⟨_, ring, late, if_pos (delayed.empty_iff.mpr isEmpty), if_pos isEmpty, delayed⟩
  · have notEmpty := mt delayed.empty_iff.mp isEmpty
    obtain ⟨sized, roomy, taken, counted, marked, within, elements⟩ := delayed
    have inside : late.mark + late.taken < late.stream.length := by
      rw [LateQueue.length_stream]
      unfold LateQueue.queued at isEmpty
      omega
    rw [List.drop_eq_getElem_cons inside] at elements
    obtain ⟨after, done, rest, sameCapacity⟩ := exists_dequeueBody elements
    obtain ⟨sameMax, oneFewer⟩ := Store.counters_of_dequeueBody done
    refine ⟨.dequeue 0 (some late.stream[late.mark + late.taken]), after,
      { late with taken := late.taken + 1 }, ?_, ?_, ?_⟩
    · simp only [ZenMessageQueueCondi.dequeue, if_neg notEmpty, done]
    · rw [LateQueue.dequeue, if_neg isEmpty, List.getElem?_eq_getElem inside, Option.map_some]
    · have oneLess : late.accepted.length - (late.taken + 1) = late.queued - 1 := by
        rw [LateQueue.queued]
        omega
      constructor
      case sized => rw [sameMax, sized]
      case roomy => rw [sameCapacity, roomy]
      case taken =>
        unfold LateQueue.queued at isEmpty
        dsimp only
        omega
      case counted =>
        rw [oneFewer, SizeT.toNat_decrement (by omega), counted]
        exact oneLess.symm
      case marked => exact (oneLess.le.trans (Nat.sub_le _ _)).trans marked
      case within => exact within
      case elements => exact rest

/-- Every call is answered alike. -/
theorem call (delayed : Delayed ring late) (input : Call α) :
    ∃ answer after lateAfter, ZenMessageQueueCondi.call ring input = some (answer, after) ∧
      late.call input = some (answer, lateAfter) ∧ Delayed after lateAfter := by
  cases input with
  | enqueue value =>
      obtain ⟨sameAnswer, still⟩ := delayed.enqueue value
      exact ⟨_, _, _, rfl, congrArg some (Prod.ext sameAnswer.symm rfl), still⟩
  | dequeue => exact delayed.dequeue
  | clear =>
      refine ⟨_, _, _, rfl, rfl, ?_⟩
      obtain ⟨sized, roomy, _⟩ := delayed
      constructor
      case sized => exact sized
      case roomy => exact roomy
      case taken => exact le_rfl
      case counted => exact SizeT.eq_zero_iff.mp rfl
      case marked => exact Nat.zero_le _
      case within => exact le_rfl
      case elements => simp [LateQueue.stream, Store.clear, Container.clear]
  | size => exact ⟨_, ring, late, rfl, by rw [Store.size, delayed.counted]; rfl, delayed⟩
  | empty =>
      refine ⟨_, ring, late, rfl, ?_, delayed⟩
      have same : ring.empty = (late.queued == 0) := by
        rw [Store.empty, Bool.eq_iff_iff, beq_iff_eq, beq_iff_eq]
        exact delayed.empty_iff
      rw [same]
      rfl
  | full =>
      refine ⟨_, ring, late, rfl, ?_, delayed⟩
      have same : ring.full = (late.queued == late.capacity) := by
        rw [Store.full, Bool.eq_iff_iff, beq_iff_eq, beq_iff_eq]
        exact delayed.full_iff
      rw [same]
      rfl

end Delayed

/-- The semaphore queue answers as the condition-variable queue, over the same container, as long as
nothing is cleared. -/
theorem Mirrors.outputs_eq {C : Type*} [Container C α] {queueMaxSize : SizeT width}
    {drift : Drift} {condi : Store width C} {sem : ZenMessageQueueSem.Queue width C}
    (mirrors : Mirrors queueMaxSize drift condi sem) (nothingLost : drift.lost = 0)
    {calls : List (Call α)} (noClear : ∀ input ∈ calls, input ≠ .clear)
    {answers : List (Answer α)}
    (executed : outputs ZenMessageQueueCondi.call condi calls = some answers) :
    outputs ZenMessageQueueSem.call sem calls = some answers := by
  obtain ⟨final, executed⟩ := outputs_eq_some.mp executed
  obtain ⟨twin, ran, _⟩ := @execute_follows _ _ _ _ ZenMessageQueueCondi.call
    ZenMessageQueueSem.call
    (fun condi sem => ∃ drift : Drift, drift.lost = 0 ∧ Mirrors queueMaxSize drift condi sem)
    (fun input => input ≠ .clear)
    (by
      rintro condi sem input answer after ⟨drift, nothingLost, mirrors⟩ notClear called
      obtain ⟨next, advanced, stillNothing⟩ :=
        @Drift.exists_advance_of_nothing_lost α queueMaxSize.toNat drift nothingLost input notClear
      obtain ⟨twin, twinCalled, still⟩ := mirrors.call advanced called
      exact ⟨twin, twinCalled, next, stillNothing, still⟩)
    calls noClear condi final sem ⟨drift, nothingLost, mirrors⟩ answers executed
  exact outputs_eq_some.mpr ⟨twin, ran⟩

/-- The same queue over a list. -/
def Store.overList (ring : Store width (CircularBuffer α)) : Store width (List α) where
  queueMaxSize := ring.queueMaxSize
  queueCurSize := ring.queueCurSize
  messageQueue := ring.messageQueue.elements

/-- A ring with no default element left. -/
structure OnlyMessages (ring : Store width (CircularBuffer α)) : Prop where
  counted : ring.messageQueue.elements.length = ring.queueCurSize.toNat
  bounded : ring.queueCurSize.toNat ≤ ring.queueMaxSize.toNat
  roomy : ring.queueMaxSize.toNat ≤ ring.messageQueue.capacity

namespace OnlyMessages

variable {ring : Store width (CircularBuffer α)}

/-- With no default element left every call goes as over a list, and leaves none. -/
theorem call (only : OnlyMessages ring) (input : Call α) :
    ∃ answer after, ZenMessageQueueCondi.call ring input = some (answer, after) ∧
      ZenMessageQueueCondi.call ring.overList input = some (answer, after.overList) ∧
        OnlyMessages after := by
  obtain ⟨counted, bounded, roomy⟩ := only
  cases input with
  | enqueue value =>
      by_cases isFull : ring.queueCurSize = ring.queueMaxSize
      · exact ⟨_, ring, congrArg some (if_pos isFull), congrArg some (if_pos isFull), counted,
          bounded, roomy⟩
      · have differs := mt BitVec.toNat_inj.mp isFull
        have below : ring.queueCurSize.toNat < ring.queueMaxSize.toNat := by omega
        have appended : (ring.enqueueBody value).messageQueue.elements =
            ring.messageQueue.elements ++ [value] :=
          CircularBuffer.elements_pushBack_of_room (by omega) value
        have incremented : (ring.enqueueBody value).queueCurSize.toNat =
            ring.queueCurSize.toNat + 1 := SizeT.toNat_increment below
        refine ⟨_, ring.enqueueBody value, congrArg some (if_neg isFull), ?_, ?_, ?_, roomy⟩
        · rw [ZenMessageQueueCondi.call, ZenMessageQueueCondi.enqueue]
          refine congrArg some ((if_neg isFull).trans ?_)
          simp only [Store.overList, appended]
          rfl
        · rw [appended, incremented, List.length_append, List.length_singleton, counted]
        · rw [incremented, Store.enqueueBody_queueMaxSize]
          omega
  | dequeue =>
      by_cases isEmpty : ring.queueCurSize = 0
      · exact ⟨_, ring, if_pos isEmpty, if_pos isEmpty, counted, bounded, roomy⟩
      · have positive := mt SizeT.eq_zero_iff.mpr isEmpty
        obtain ⟨value, rest, elements⟩ : ∃ value rest, ring.messageQueue.elements = value :: rest :=
          List.exists_cons_of_length_pos (by omega)
        obtain ⟨after, done, remaining, sameCapacity⟩ := exists_dequeueBody elements
        obtain ⟨sameMax, oneLess⟩ := Store.counters_of_dequeueBody done
        have decremented : after.queueCurSize.toNat = ring.queueCurSize.toNat - 1 := by
          rw [oneLess, SizeT.toNat_decrement (by omega)]
        have listDone : ring.overList.dequeueBody false = .done value after.overList := by
          simp only [Store.dequeueBody, Store.overList, elements, remaining, sameMax, oneLess]
          rfl
        refine ⟨.dequeue 0 (some value), after, ?_, ?_, ?_, ?_, ?_⟩
        · simp only [ZenMessageQueueCondi.call, ZenMessageQueueCondi.dequeue, if_neg isEmpty, done]
        · have notEmpty : ring.overList.queueCurSize ≠ 0 := isEmpty
          simp only [ZenMessageQueueCondi.call, ZenMessageQueueCondi.dequeue, if_neg notEmpty,
            listDone]
        · rw [elements, List.length_cons] at counted
          rw [remaining, decremented]
          omega
        · rw [decremented, sameMax]
          omega
        · rwa [sameMax, sameCapacity]
  | clear =>
      refine ⟨_, ring.clear, rfl, rfl, ?_, Nat.zero_le _, roomy⟩
      exact (SizeT.eq_zero_iff.mp rfl).symm
  | size | empty | full => exact ⟨_, ring, rfl, rfl, counted, bounded, roomy⟩

/-- From then on the ring is the queue over a list. -/
theorem outputs_eq (only : OnlyMessages ring) (later : List (Call α)) :
    outputs ZenMessageQueueCondi.call ring later =
      outputs ZenMessageQueueCondi.call ring.overList later := by
  obtain ⟨results, mine, listed⟩ := @outputs_of_alike _ _ _ _ ZenMessageQueueCondi.call
    ZenMessageQueueCondi.call
    (fun (ring : Store width (CircularBuffer α)) (list : Store width (List α)) =>
      OnlyMessages ring ∧ list = ring.overList)
    (by
      rintro before _ input ⟨only, rfl⟩
      obtain ⟨answer, after, called, listCalled, still⟩ := only.call input
      exact ⟨answer, after, after.overList, called, listCalled, still, rfl⟩)
    ring ring.overList ⟨only, rfl⟩ later
  rw [mine, listed]

end OnlyMessages

/-- With the mark at the top nothing but messages can be handed out. -/
theorem Delayed.elements_of_clean [Inhabited α] {ring : Store width (CircularBuffer α)}
    {late : LateQueue α} (delayed : Delayed ring late) (clean : late.mark = late.capacity) :
    ring.messageQueue.elements = late.accepted.drop late.taken := by
  rw [delayed.elements, clean, LateQueue.stream, ← List.drop_drop]
  simp

/-- A ring that has ever been full at once has pushed all its default elements out. -/
theorem Delayed.onlyMessages [Inhabited α] {ring : Store width (CircularBuffer α)}
    {late : LateQueue α} (delayed : Delayed ring late) (clean : late.mark = late.capacity) :
    OnlyMessages ring where
  counted := by
    have held := delayed.length_elements
    rw [delayed.counted]
    omega
  bounded := by
    rw [delayed.counted, delayed.sized]
    exact delayed.marked.trans delayed.within
  roomy := by rw [delayed.sized, delayed.roomy]

/-- The calls a new ring has answered leave it as the late queue says. -/
theorem exists_delayed [Inhabited α] {queueMaxSize : SizeT width} {calls : List (Call α)}
    {answers : List (Answer α)} {ring : Store width (CircularBuffer α)}
    (executed : execute ZenMessageQueueCondi.call
      (ZenMessageQueueCondi.constructRing queueMaxSize) calls = some (answers, ring)) :
    ∃ late : LateQueue α, execute LateQueue.call (LateQueue.new queueMaxSize.toNat) calls =
      some (answers, late) ∧ Delayed ring late := by
  refine @execute_follows _ _ _ _ ZenMessageQueueCondi.call LateQueue.call Delayed
    (fun _ => True) ?_ calls (fun _ _ => trivial) _ ring _ (Delayed.construct queueMaxSize) answers
    executed
  rintro before late input answer after delayed - called
  obtain ⟨answer', after', lateAfter, called', lateCalled, still⟩ := delayed.call input
  obtain ⟨rfl, rfl⟩ := Prod.mk.inj (Option.some.inj (called.symm.trans called'))
  exact ⟨lateAfter, lateCalled, still⟩

/-- Once it has been full or was cleared, a ring-buffer queue is the bounded queue it is meant to
be.  It holds the messages accepted since the last `clear` less as many of them as were dequeued,
and whatever is called then is answered as by a queue over a list with these messages. -/
theorem ring_exact_once_full [Inhabited α] {queueMaxSize : SizeT width} {calls : List (Call α)}
    {answers : List (Answer α)} {ring : Store width (CircularBuffer α)}
    (executed : execute ZenMessageQueueCondi.call
      (ZenMessageQueueCondi.constructRing queueMaxSize) calls = some (answers, ring))
    (clean : ring.full = true ∨ calls.getLast? = some .clear) :
    ring.messageQueue.elements =
        ((Answer.sinceClear answers).flatMap Answer.accepted).drop
          ((Answer.sinceClear answers).flatMap Answer.received).length ∧
      ring.messageQueue.elements.length = ring.queueCurSize.toNat ∧
        ∀ later, outputs ZenMessageQueueCondi.call ring later =
          outputs ZenMessageQueueCondi.call ring.overList later := by
  obtain ⟨late, lateExecuted, delayed⟩ := exists_delayed executed
  have marked : late.mark = late.capacity := by
    rcases clean with isFull | cleared
    · have queued := delayed.full_iff.mp (beq_iff_eq.mp isFull)
      have marked := delayed.marked
      have within := delayed.within
      omega
    · obtain ⟨front, rfl⟩ := List.getLast?_eq_some_iff.mp cleared
      obtain ⟨middle, earlier, last, _, called, _⟩ := execute_append_eq_some.mp lateExecuted
      obtain ⟨_, _, _, first, rest, _⟩ := execute_cons_eq_some.mp called
      cases first
      cases rest
      rfl
  have only := delayed.onlyMessages marked
  have nothing : LateQueue.Remembers [] (LateQueue.new queueMaxSize.toNat : LateQueue α) :=
    ⟨rfl, rfl⟩
  have remembers := nothing.execute lateExecuted
  refine ⟨?_, only.counted, only.outputs_eq⟩
  rw [delayed.elements_of_clean marked, remembers.accepted, remembers.taken, List.nil_append]

/-- A ring of size two that was filled up holds the last two messages, without the one that stayed
behind when a default element was dequeued in its place. -/
theorem ring_exact_once_full_of_size_two :
    ∃ ring : Store 32 (CircularBuffer Nat),
      execute ZenMessageQueueCondi.call (ZenMessageQueueCondi.constructRing 2)
          [.enqueue 7, .dequeue, .enqueue 8, .enqueue 9] =
        some ([.enqueue 7 0, .dequeue 0 (some 0), .enqueue 8 0, .enqueue 9 0], ring) ∧
      ring.messageQueue.elements = [8, 9] ∧
        outputs ZenMessageQueueCondi.call ring [.dequeue, .clear, .enqueue 5, .dequeue] =
          some [.dequeue 0 (some 8), .clear, .enqueue 5 0, .dequeue 0 (some 5)] := by
  have executed : execute ZenMessageQueueCondi.call
      (ZenMessageQueueCondi.constructRing (2 : SizeT 32))
      [.enqueue 7, .dequeue, .enqueue 8, .enqueue 9] =
        some ([.enqueue 7 0, .dequeue 0 (some 0), .enqueue 8 0, .enqueue 9 0], _) := rfl
  obtain ⟨holds, _, alike⟩ := ring_exact_once_full executed (.inl rfl)
  exact ⟨_, executed, holds, alike [.dequeue, .clear, .enqueue 5, .dequeue]⟩

end BoostTest
