import BoostTest.Queue.Agreement

/-!
# The ring-buffer queues

`zen_condi_msgqueue_ring` and `zen_smem_msgqueue_ring` keep their messages in a
`boost::circular_buffer`.  Their constructors are to give it room for `queue_max_size` messages, and
call `resize`, which fills it with as many default-constructed elements.  A ring that starts without
these is a FIFO queue; with them it is one only where the first message overwrites them all.
-/

namespace BoostTest

open CallSequence

/-- `boost::circular_buffer`, by its elements from the oldest to the newest. -/
structure CircularBuffer (α : Type*) where
  capacity : Nat
  elements : List α
  fits : elements.length ≤ capacity
  deriving DecidableEq

namespace CircularBuffer

variable {α : Type*}

/-- The default-constructed buffer, which has no capacity. -/
def empty : CircularBuffer α where
  capacity := 0
  elements := []
  fits := Nat.le_refl 0

/-- `push_back(value)`, which overwrites the oldest element of a full buffer. -/
def pushBack (buffer : CircularBuffer α) (value : α) : CircularBuffer α where
  capacity := buffer.capacity
  elements :=
    if buffer.elements.length < buffer.capacity then buffer.elements ++ [value]
    else (buffer.elements ++ [value]).tail
  fits := by
    have fits := buffer.fits
    split
    · rw [List.length_append, List.length_singleton]
      omega
    · rw [List.length_tail, List.length_append, List.length_singleton]
      omega

/-- `pop_front()`, which removes the oldest element. -/
def popFront? (buffer : CircularBuffer α) : Option (CircularBuffer α) :=
  match buffer with
  | { elements := [], .. } => none
  | { capacity, elements := _ :: rest, fits } =>
      some { capacity, elements := rest, fits := (Nat.le_succ rest.length).trans fits }

/-- `resize(size)`: the capacity is raised if needed, and default-constructed elements are appended
or the newest ones dropped. -/
def resize [Inhabited α] (buffer : CircularBuffer α) (size : Nat) : CircularBuffer α where
  capacity := max buffer.capacity size
  elements := buffer.elements.take size ++ List.replicate (size - buffer.elements.length) default
  fits := by
    rw [List.length_append, List.length_take, List.length_replicate]
    omega

theorem elements_pushBack_of_room {buffer : CircularBuffer α}
    (room : buffer.elements.length < buffer.capacity) (value : α) :
    (buffer.pushBack value).elements = buffer.elements ++ [value] :=
  if_pos room

theorem elements_pushBack_of_full {buffer : CircularBuffer α}
    (full : buffer.elements.length = buffer.capacity) (value : α) :
    (buffer.pushBack value).elements = (buffer.elements ++ [value]).tail :=
  if_neg (by omega)

@[simp]
theorem elements_resize_empty [Inhabited α] (size : Nat) :
    ((empty : CircularBuffer α).resize size).elements = List.replicate size default := by
  simp [resize, empty]

@[simp]
theorem capacity_resize_empty [Inhabited α] (size : Nat) :
    ((empty : CircularBuffer α).resize size).capacity = size := by
  simp [resize, empty]

/-- An empty buffer that was resized is full, so a message takes the place of the oldest default
element. -/
theorem elements_pushBack_resize_empty [Inhabited α] (others : Nat) (value : α) :
    (((empty : CircularBuffer α).resize (others + 1)).pushBack value).elements =
      List.replicate others default ++ [value] := by
  rw [elements_pushBack_of_full (by simp), elements_resize_empty, List.replicate_succ,
    List.cons_append, List.tail_cons]

instance : Container (CircularBuffer α) α where
  pushBack := pushBack
  begin? buffer := buffer.elements.head?
  popFront? := popFront?
  clear buffer := { buffer with elements := [], fits := Nat.zero_le _ }
  size buffer := buffer.elements.length

end CircularBuffer

variable {α : Type*} {width : Nat}

/-- The constructor of `zen_condi_msgqueue_ring`. -/
def ZenMessageQueueCondi.constructRing [Inhabited α] (queueMaxSize : SizeT width) :
    Store width (CircularBuffer α) :=
  let queue := Store.construct queueMaxSize CircularBuffer.empty
  { queue with messageQueue := queue.messageQueue.resize queueMaxSize.toNat }

/-- The constructor of `zen_smem_msgqueue_ring`. -/
def ZenMessageQueueSem.constructRing [Inhabited α] (queueMaxSize : SizeT width) :
    Queue width (CircularBuffer α) :=
  let queue := construct queueMaxSize CircularBuffer.empty
  { queue with
    store :=
      { queue.store with
        messageQueue := queue.store.messageQueue.resize queueMaxSize.toNat } }

/-- What the user of a FIFO queue relies on after the calls answered so far. -/
structure IsFifo (answers : List (Answer α)) (store : Store width (CircularBuffer α)) : Prop where
  /-- The values dequeued are the first values enqueued, in the same order. -/
  inOrder : answers.flatMap Answer.received <+: answers.flatMap Answer.accepted
  /-- The values enqueued and not yet dequeued are still in the buffer. -/
  kept : (answers.flatMap Answer.accepted).drop (answers.flatMap Answer.received).length <:+
    store.messageQueue.elements
  sized : Container.size store.messageQueue = store.queueCurSize.toNat

/-- The invariant of a ring that holds nothing but messages. -/
structure HoldsMessages (answers : List (Answer α)) (store : Store width (CircularBuffer α)) :
    Prop where
  roomy : store.queueMaxSize.toNat ≤ store.messageQueue.capacity
  bounded : store.queueCurSize.toNat ≤ store.queueMaxSize.toNat
  counted : store.messageQueue.elements.length = store.queueCurSize.toNat
  conserved : answers.flatMap Answer.received ++ store.messageQueue.elements =
    answers.flatMap Answer.accepted

theorem HoldsMessages.isFifo {answers : List (Answer α)}
    {store : Store width (CircularBuffer α)} (holds : HoldsMessages answers store) :
    IsFifo answers store where
  inOrder := ⟨_, holds.conserved⟩
  kept := by
    rw [← holds.conserved, List.drop_left]
  sized := holds.counted

/-- A completed critical section of `dequeue` removes the oldest element of the ring. -/
theorem elements_of_dequeueBody {store after : Store width (CircularBuffer α)} {value : α}
    (done : store.dequeueBody false = .done value after) :
    store.messageQueue.elements = value :: after.messageQueue.elements ∧
      after.messageQueue.capacity = store.messageQueue.capacity := by
  obtain ⟨maxSize, curSize, capacity, elements, fits⟩ := store
  cases elements with
  | nil => cases done
  | cons oldest rest =>
      cases done
      exact ⟨rfl, rfl⟩

theorem HoldsMessages.call {answers : List (Answer α)} {answer : Answer α} {input : Call α}
    {store after : Store width (CircularBuffer α)} (holds : HoldsMessages answers store)
    (called : ZenMessageQueueCondi.call store input = some (answer, after))
    (success : answer.succeeded = true) : HoldsMessages (answers ++ [answer]) after := by
  obtain ⟨roomy, bounded, counted, conserved⟩ := holds
  obtain ⟨value, rfl, notFull, rfl, rfl⟩ | ⟨value, rfl, notEmpty, done, rfl⟩ :=
    ZenMessageQueueCondi.cases_of_succeeded called success
  · have differs : store.queueCurSize.toNat ≠ store.queueMaxSize.toNat :=
      fun same => notFull (BitVec.toNat_inj.mp same)
    have below : store.queueCurSize.toNat < store.queueMaxSize.toNat := by omega
    have appended : (store.enqueueBody value).messageQueue.elements =
        store.messageQueue.elements ++ [value] :=
      CircularBuffer.elements_pushBack_of_room (by omega) value
    have incremented : (store.enqueueBody value).queueCurSize.toNat =
        store.queueCurSize.toNat + 1 := SizeT.toNat_increment below
    constructor
    case roomy => exact roomy
    case bounded =>
      rw [incremented, Store.enqueueBody_queueMaxSize]
      omega
    case counted =>
      rw [appended, incremented, List.length_append, List.length_singleton, counted]
    case conserved =>
      simp [appended, ← conserved]
  · obtain ⟨oldest, sameCapacity⟩ := elements_of_dequeueBody done
    obtain ⟨sameMax, oneLess⟩ := Store.counters_of_dequeueBody done
    have decremented : after.queueCurSize.toNat = store.queueCurSize.toNat - 1 := by
      rw [oneLess]
      exact SizeT.toNat_decrement (Nat.pos_of_ne_zero fun zero =>
        notEmpty (SizeT.eq_zero_iff.mpr zero))
    rw [oldest, List.length_cons] at counted
    constructor
    case roomy => rwa [sameMax, sameCapacity]
    case bounded =>
      rw [decremented, sameMax]
      omega
    case counted => omega
    case conserved =>
      simpa [oldest] using conserved

/-- A ring that holds nothing but messages is a FIFO queue from then on. -/
theorem HoldsMessages.execute {earlier answers : List (Answer α)} {calls : List (Call α)}
    {store final : Store width (CircularBuffer α)} (holds : HoldsMessages earlier store)
    (executed : execute ZenMessageQueueCondi.call store calls = some (answers, final))
    (success : ∀ answer ∈ answers, answer.succeeded = true) :
    HoldsMessages (earlier ++ answers) final := by
  induction calls generalizing earlier answers store with
  | nil =>
      obtain ⟨rfl, rfl⟩ := Prod.mk.inj (Option.some.inj executed)
      rwa [List.append_nil]
  | cons input calls induction =>
      obtain ⟨answer, next, later, called, continued, rfl⟩ := execute_cons_eq_some.mp executed
      have holdsNext := holds.call called (success answer List.mem_cons_self)
      have holdsFinal := induction holdsNext continued fun other member =>
        success other (List.mem_cons_of_mem answer member)
      rwa [List.append_assoc, List.singleton_append] at holdsFinal

/-- Every state the calls lead to, from the first one on, looks like that of a FIFO queue. -/
def FifoThroughout {State : Type*} (call : State → Call α → Option (Answer α × State))
    (store : State → Store width (CircularBuffer α)) (initial : State) (calls : List (Call α)) :
    Prop :=
  ∀ front, front <+: calls → front ≠ [] → ∀ answers final,
    execute call initial front = some (answers, final) → IsFifo answers (store final)

/-- Calls that return 0 clear nothing. -/
theorem ne_clear_of_succeeded {calls : List (Call α)} {answers : List (Answer α)}
    {queue final : ZenMessageQueueSem.Queue width (CircularBuffer α)}
    (executed : execute ZenMessageQueueSem.call queue calls = some (answers, final))
    (success : ∀ answer ∈ answers, answer.succeeded = true) :
    ∀ input ∈ calls, input ≠ .clear := by
  rintro _ member rfl
  obtain ⟨before, answer, after, called, answered⟩ := exists_call_of_mem member executed
  cases called
  cases success _ answered

section Construct

variable [Inhabited α] {queueMaxSize : SizeT width}

/-- The first call of a new ring that returns 0 is an `enqueue`. -/
theorem first_of_succeeded {after : Store width (CircularBuffer α)} {input : Call α}
    {answer : Answer α}
    (called : ZenMessageQueueCondi.call (ZenMessageQueueCondi.constructRing queueMaxSize) input =
      some (answer, after))
    (success : answer.succeeded = true) :
    ∃ value, answer = .enqueue value 0 ∧
      after = (ZenMessageQueueCondi.constructRing queueMaxSize).enqueueBody value := by
  obtain ⟨value, _, _, answered, did⟩ | ⟨_, _, notEmpty, _⟩ :=
    ZenMessageQueueCondi.cases_of_succeeded called success
  · exact ⟨value, answered, did⟩
  · exact (notEmpty rfl).elim

/-- After the first message the counter is one and the ring still full. -/
theorem shape_of_first (positive : 0 < queueMaxSize.toNat) (value : α) :
    ((ZenMessageQueueCondi.constructRing queueMaxSize).enqueueBody value).queueCurSize.toNat = 1 ∧
      ((ZenMessageQueueCondi.constructRing queueMaxSize).enqueueBody
          value).messageQueue.elements =
        List.replicate (queueMaxSize.toNat - 1) default ++ [value] := by
  obtain ⟨others, size⟩ := Nat.exists_eq_add_one.mpr positive
  constructor
  · have below : (0 : SizeT width).toNat < queueMaxSize.toNat := by
      rw [SizeT.eq_zero_iff.mp rfl]
      exact positive
    have incremented := SizeT.toNat_increment below
    rwa [SizeT.eq_zero_iff.mp rfl] at incremented
  · have pushed := CircularBuffer.elements_pushBack_resize_empty others value
    have rest : others = queueMaxSize.toNat - 1 := Nat.eq_sub_of_add_eq size.symm
    rwa [← size, rest] at pushed

/-- On a ring of size one the first message is the only element. -/
theorem holdsMessages_of_first (one : queueMaxSize.toNat = 1) (value : α) :
    HoldsMessages [.enqueue value 0]
      ((ZenMessageQueueCondi.constructRing queueMaxSize).enqueueBody value) := by
  obtain ⟨counted, only⟩ := @shape_of_first α width _ queueMaxSize (by omega) value
  rw [one] at only
  constructor
  case roomy => exact (CircularBuffer.capacity_resize_empty queueMaxSize.toNat).ge
  case bounded => exact (counted.trans one.symm).le
  case counted => rw [counted, only]; rfl
  case conserved => rw [only]; rfl

/-- On a larger ring the default elements that are left make it longer than the counter says. -/
theorem not_isFifo_of_first (several : 1 < queueMaxSize.toNat) (value : α) :
    ¬ IsFifo [.enqueue value 0]
      ((ZenMessageQueueCondi.constructRing queueMaxSize).enqueueBody value) := by
  intro isFifo
  obtain ⟨counted, elements⟩ := @shape_of_first α width _ queueMaxSize (by omega) value
  have sized : ((ZenMessageQueueCondi.constructRing queueMaxSize).enqueueBody
      value).messageQueue.elements.length = _ := isFifo.sized
  rw [elements, counted, List.length_append, List.length_replicate, List.length_singleton] at sized
  omega

/-- The condition-variable ring is a FIFO queue for messages exactly where its size is one. -/
theorem condi_fifoThroughout_iff (positive : 0 < queueMaxSize) {calls : List (Call α)}
    {answers : List (Answer α)} {final : Store width (CircularBuffer α)}
    (executed : execute ZenMessageQueueCondi.call
      (ZenMessageQueueCondi.constructRing queueMaxSize) calls = some (answers, final))
    (success : ∀ answer ∈ answers, answer.succeeded = true) :
    FifoThroughout ZenMessageQueueCondi.call id (ZenMessageQueueCondi.constructRing queueMaxSize)
        calls ↔
      queueMaxSize.toNat = 1 ∨ calls = [] := by
  have positive : 0 < queueMaxSize.toNat := positive
  constructor
  · intro fifo
    cases calls with
    | nil => exact .inr rfl
    | cons input calls =>
        left
        obtain ⟨answer, next, later, called, _, rfl⟩ := execute_cons_eq_some.mp executed
        obtain ⟨value, rfl, rfl⟩ := first_of_succeeded called (success answer List.mem_cons_self)
        have first := fifo [input] ⟨calls, rfl⟩ (List.cons_ne_nil input []) _ _
          (execute_cons_eq_some.mpr ⟨_, _, _, called, rfl, rfl⟩)
        by_contra several
        exact not_isFifo_of_first (by omega) value first
  · rintro (one | rfl) front isPrefix nonempty earlier middle ran
    · obtain ⟨_, _, ran', isPrefix'⟩ := exists_execute_of_prefix isPrefix executed
      obtain ⟨rfl, rfl⟩ := Prod.mk.inj (Option.some.inj (ran.symm.trans ran'))
      cases front with
      | nil => exact (nonempty rfl).elim
      | cons input front =>
          obtain ⟨answer, next, later, called, continued, rfl⟩ := execute_cons_eq_some.mp ran
          obtain ⟨value, rfl, rfl⟩ :=
            first_of_succeeded called (success answer (isPrefix'.subset List.mem_cons_self))
          have holds := (holdsMessages_of_first one value).execute continued fun other member =>
            success other (isPrefix'.subset (List.mem_cons_of_mem _ member))
          exact holds.isFifo
    · exact (nonempty (List.prefix_nil.mp isPrefix)).elim

variable (α queueMaxSize) in
theorem mirrors_constructRing :
    Mirrors queueMaxSize { queued := 0, lost := 0 }
      (ZenMessageQueueCondi.constructRing queueMaxSize : Store width (CircularBuffer α))
      (ZenMessageQueueSem.constructRing queueMaxSize) := by
  obtain ⟨_, sameMax, counted, slots, messages⟩ :=
    Mirrors.construct queueMaxSize (CircularBuffer.empty : CircularBuffer α)
  exact ⟨rfl, sameMax, counted, slots, messages⟩

/-- The semaphore ring goes through the same buffers as the condition-variable ring. -/
theorem sem_fifoThroughout_iff {calls : List (Call α)} {answers : List (Answer α)}
    {final : ZenMessageQueueSem.Queue width (CircularBuffer α)}
    (executed : execute ZenMessageQueueSem.call
      (ZenMessageQueueSem.constructRing queueMaxSize) calls = some (answers, final))
    (noClear : ∀ input ∈ calls, input ≠ .clear) :
    FifoThroughout ZenMessageQueueSem.call ZenMessageQueueSem.Queue.store
        (ZenMessageQueueSem.constructRing queueMaxSize) calls ↔
      FifoThroughout ZenMessageQueueCondi.call id
        (ZenMessageQueueCondi.constructRing queueMaxSize) calls := by
  have mirrors := mirrors_constructRing α queueMaxSize
  constructor
  · intro fifo front isPrefix nonempty earlier middle ran
    obtain ⟨semEarlier, semMiddle, semRan, _⟩ := exists_execute_of_prefix isPrefix executed
    have condiRan := mirrors.execute_of_sem rfl
      (fun input member => noClear input (isPrefix.subset member)) semRan
    obtain ⟨rfl, rfl⟩ := Prod.mk.inj (Option.some.inj (ran.symm.trans condiRan))
    exact fifo front isPrefix nonempty earlier semMiddle semRan
  · intro fifo front isPrefix nonempty earlier middle ran
    exact fifo front isPrefix nonempty earlier middle.store (mirrors.execute_of_sem rfl
      (fun input member => noClear input (isPrefix.subset member)) ran)

/-- A ring-buffer queue of either kind is a FIFO queue, for the calls that return 0 and with a
buffer as long as the counter says, exactly where its size is one. -/
theorem ring_fifoThroughout_iff (positive : 0 < queueMaxSize) (calls : List (Call α))
    (answers : List (Answer α)) (success : ∀ answer ∈ answers, answer.succeeded = true) :
    (∀ final, execute ZenMessageQueueCondi.call
        (ZenMessageQueueCondi.constructRing queueMaxSize) calls = some (answers, final) →
      (FifoThroughout ZenMessageQueueCondi.call id
          (ZenMessageQueueCondi.constructRing queueMaxSize) calls ↔
        queueMaxSize.toNat = 1 ∨ calls = [])) ∧
      ∀ final, execute ZenMessageQueueSem.call
          (ZenMessageQueueSem.constructRing queueMaxSize) calls = some (answers, final) →
        (FifoThroughout ZenMessageQueueSem.call ZenMessageQueueSem.Queue.store
            (ZenMessageQueueSem.constructRing queueMaxSize) calls ↔
          queueMaxSize.toNat = 1 ∨ calls = []) := by
  refine ⟨fun final executed => condi_fifoThroughout_iff positive executed success,
    fun final executed => ?_⟩
  have noClear := ne_clear_of_succeeded executed success
  have condiExecuted := (mirrors_constructRing α queueMaxSize).execute_of_sem rfl noClear executed
  exact (sem_fifoThroughout_iff executed noClear).trans
    (condi_fifoThroughout_iff positive condiExecuted success)

end Construct

/-- On rings of size two the first `dequeue` yields a default element. -/
theorem ring_dequeues_default :
    (∃ answers final,
        execute ZenMessageQueueCondi.call (ZenMessageQueueCondi.constructRing (2 : SizeT 32))
            [.enqueue 7, .dequeue] = some (answers, final) ∧
          (∀ answer ∈ answers, answer.succeeded = true) ∧
            ¬ IsFifo (answers : List (Answer Nat)) final) ∧
      ∃ answers final,
        execute ZenMessageQueueSem.call (ZenMessageQueueSem.constructRing (2 : SizeT 32))
            [.enqueue 7, .dequeue] = some (answers, final) ∧
          (∀ answer ∈ answers, answer.succeeded = true) ∧
            ¬ IsFifo (answers : List (Answer Nat)) final.store := by
  have outOfOrder : ¬ [0] <+: [7] := by decide
  exact ⟨⟨[.enqueue 7 0, .dequeue 0 (some 0)], _, rfl, by decide,
      fun isFifo => outOfOrder isFifo.inOrder⟩,
    ⟨[.enqueue 7 0, .dequeue 0 (some 0)], _, rfl, by decide,
      fun isFifo => outOfOrder isFifo.inOrder⟩⟩

/-- Rings of size one hand a message over. -/
theorem ring_fifoThroughout_of_size_one :
    (∃ final : Store 32 (CircularBuffer Nat),
      execute ZenMessageQueueCondi.call (ZenMessageQueueCondi.constructRing 1)
          [.enqueue 7, .dequeue] = some ([.enqueue 7 0, .dequeue 0 (some 7)], final) ∧
        FifoThroughout ZenMessageQueueCondi.call id
          (ZenMessageQueueCondi.constructRing 1 : Store 32 (CircularBuffer Nat))
          [.enqueue 7, .dequeue]) ∧
      ∃ final : ZenMessageQueueSem.Queue 32 (CircularBuffer Nat),
        execute ZenMessageQueueSem.call (ZenMessageQueueSem.constructRing 1)
            [.enqueue 7, .dequeue] = some ([.enqueue 7 0, .dequeue 0 (some 7)], final) ∧
          FifoThroughout ZenMessageQueueSem.call ZenMessageQueueSem.Queue.store
            (ZenMessageQueueSem.constructRing 1 : ZenMessageQueueSem.Queue 32 (CircularBuffer Nat))
            [.enqueue 7, .dequeue] := by
  obtain ⟨condi, sem⟩ := @ring_fifoThroughout_iff Nat 32 _ 1 (by decide) [.enqueue 7, .dequeue]
    [.enqueue 7 0, .dequeue 0 (some 7)] (by decide)
  exact ⟨⟨_, rfl, (condi _ rfl).mpr (.inl rfl)⟩, _, rfl, (sem _ rfl).mpr (.inl rfl)⟩

end BoostTest
