import BoostTest.Queue.Container

/-!
# The part both message queues share

`zen_message_queue_condi` and `zen_message_queue_sem` declare the same three data members next to
`queue_lock_` and have the same text inside their critical sections.  `Store` holds those members;
its operations are what the code does between taking and releasing `queue_lock_`.
-/

namespace BoostTest

/-- The data that `queue_lock_` protects. -/
structure Store (width : Nat) (C : Type*) where
  /-- `queue_max_size_`. -/
  queueMaxSize : SizeT width
  /-- `queue_cur_size_`, the counter kept by hand next to the container. -/
  queueCurSize : SizeT width
  /-- `message_queue_`. -/
  messageQueue : C
  deriving DecidableEq, Repr

/-- How the critical section of `dequeue` ends. -/
inductive DequeueBody (S α : Type*) where
  /-- `*begin()` or `pop_front()` was applied to an empty container. -/
  | undefined
  /-- The assignment to `value_data` threw. -/
  | threw
  | done (value : α) (store : S)

namespace Store

variable {width : Nat} {C α : Type*}

/-- The constructors: the counter starts at zero over the container given. -/
def construct (queueMaxSize : SizeT width) (messageQueue : C) : Store width C :=
  { queueMaxSize, queueCurSize := 0, messageQueue }

/-- `empty()`. -/
def empty (store : Store width C) : Bool := store.queueCurSize == 0

/-- `full()`. -/
def full (store : Store width C) : Bool := store.queueCurSize == store.queueMaxSize

/-- `size()`. -/
def size (store : Store width C) : SizeT width := store.queueCurSize

section Operations

variable [Container C α]

/-- `clear()`. -/
def clear (store : Store width C) : Store width C :=
  { store with messageQueue := Container.clear store.messageQueue, queueCurSize := 0 }

/-- `message_queue_.push_back(value_data); ++queue_cur_size_;` -/
def enqueueBody (store : Store width C) (value : α) : Store width C :=
  { store with
    messageQueue := Container.pushBack store.messageQueue value
    queueCurSize := store.queueCurSize + 1 }

/-- `value_data = *message_queue_.begin(); message_queue_.pop_front(); --queue_cur_size_;` -/
def dequeueBody (store : Store width C) (copyThrows : Bool) : DequeueBody (Store width C) α :=
  match Container.begin? store.messageQueue with
  | none => .undefined
  | some value =>
      if copyThrows then .threw
      else
        match Container.popFront? store.messageQueue with
        | none => .undefined
        | some shorter =>
            .done value
              { store with messageQueue := shorter, queueCurSize := store.queueCurSize - 1 }

@[simp]
theorem clear_queueMaxSize (store : Store width C) :
    store.clear.queueMaxSize = store.queueMaxSize := rfl

@[simp]
theorem clear_queueCurSize (store : Store width C) : store.clear.queueCurSize = 0 := rfl

@[simp]
theorem enqueueBody_queueMaxSize (store : Store width C) (value : α) :
    (store.enqueueBody value).queueMaxSize = store.queueMaxSize := rfl

@[simp]
theorem enqueueBody_queueCurSize (store : Store width C) (value : α) :
    (store.enqueueBody value).queueCurSize = store.queueCurSize + 1 := rfl

/-- What the critical section of `dequeue` does to the two counters, for any container. -/
theorem counters_of_dequeueBody {store after : Store width C} {copyThrows : Bool} {value : α}
    (done : store.dequeueBody copyThrows = .done value after) :
    after.queueMaxSize = store.queueMaxSize ∧ after.queueCurSize = store.queueCurSize - 1 := by
  unfold dequeueBody at done
  split at done
  · cases done
  · split at done
    · cases done
    · split at done
      · cases done
      · cases done
        exact ⟨rfl, rfl⟩

/-- A `dequeue` that completed made a copy that did not throw. -/
theorem not_copyThrows_of_done {store after : Store width C} {copyThrows : Bool} {value : α}
    (done : store.dequeueBody copyThrows = .done value after) : copyThrows = false := by
  cases copyThrows with
  | false => rfl
  | true =>
      unfold dequeueBody at done
      split at done <;> cases done

/-- A `dequeue` that threw made a copy that throws. -/
theorem copyThrows_of_threw {store : Store width C} {copyThrows : Bool}
    (threw : store.dequeueBody copyThrows = .threw) : copyThrows = true := by
  cases copyThrows with
  | true => rfl
  | false =>
      unfold dequeueBody at threw
      split at threw
      · cases threw
      · split at threw
        · contradiction
        · split at threw <;> cases threw

end Operations

section Contents

variable [Sequence C α]

/-- The messages in the queue, oldest first. -/
def contents (store : Store width C) : List α := Sequence.toList store.messageQueue

@[simp]
theorem contents_construct (queueMaxSize : SizeT width) :
    (construct queueMaxSize (Sequence.empty : C)).contents = ([] : List α) :=
  Sequence.toList_empty

@[simp]
theorem contents_clear (store : Store width C) : store.clear.contents = ([] : List α) :=
  Sequence.toList_clear store.messageQueue

@[simp]
theorem contents_enqueueBody (store : Store width C) (value : α) :
    (store.enqueueBody value).contents = store.contents ++ [value] :=
  Sequence.toList_pushBack store.messageQueue value

/-- On an empty queue the critical section of `dequeue` is undefined. -/
theorem dequeueBody_of_nil {store : Store width C} (empty : store.contents = ([] : List α))
    (copyThrows : Bool) : store.dequeueBody copyThrows = .undefined := by
  unfold contents at empty
  simp [dequeueBody, empty]

/-- On a nonempty queue it yields the oldest message, or throws and leaves the queue alone. -/
theorem dequeueBody_of_cons {store : Store width C} {value : α} {rest : List α}
    (nonempty : store.contents = value :: rest) :
    store.dequeueBody true = .threw ∧
      ∃ after, store.dequeueBody false = .done value after ∧ after.contents = rest := by
  unfold contents at nonempty
  obtain ⟨shorter, popped, remaining⟩ := Sequence.popFront?_of_cons nonempty
  refine ⟨by simp [dequeueBody, nonempty], _, by simp [dequeueBody, nonempty, popped]; rfl, ?_⟩
  exact remaining

theorem dequeueBody_eq_undefined {store : Store width C} {copyThrows : Bool} :
    store.dequeueBody copyThrows = .undefined ↔ store.contents = ([] : List α) := by
  constructor
  · intro undefined
    cases messages : (store.contents : List α) with
    | nil => rfl
    | cons value rest =>
        obtain ⟨throws, after, done, _⟩ := dequeueBody_of_cons messages
        cases copyThrows with
        | true => rw [throws] at undefined; cases undefined
        | false => rw [done] at undefined; cases undefined
  · exact fun empty => dequeueBody_of_nil empty copyThrows

/-- A completed `dequeue` took the oldest message and nothing else. -/
theorem contents_of_dequeueBody {store after : Store width C} {copyThrows : Bool} {value : α}
    (done : store.dequeueBody copyThrows = .done value after) :
    store.contents = value :: after.contents := by
  cases messages : (store.contents : List α) with
  | nil => rw [dequeueBody_of_nil messages] at done; cases done
  | cons oldest rest =>
      obtain ⟨throws, shorter, taken, remaining⟩ := dequeueBody_of_cons messages
      cases copyThrows with
      | true => rw [throws] at done; cases done
      | false =>
          rw [taken] at done
          cases done
          rw [remaining]

/-- The counter is the number of messages, and there are at most `queue_max_size_` of them. -/
structure Valid (store : Store width C) : Prop where
  counted : store.queueCurSize.toNat = (store.contents : List α).length
  bounded : (store.contents : List α).length ≤ store.queueMaxSize.toNat

namespace Valid

theorem construct (queueMaxSize : SizeT width) :
    (construct queueMaxSize (Sequence.empty : C)).Valid where
  counted := by simp [Store.construct, Store.contents]
  bounded := by simp

theorem clear (store : Store width C) : store.clear.Valid where
  counted := by simp
  bounded := by simp

/-- Room for one message is all the critical section of `enqueue` needs. -/
theorem enqueueBody {store : Store width C} (valid : store.Valid)
    (room : (store.contents : List α).length < store.queueMaxSize.toNat) (value : α) :
    (store.enqueueBody value).Valid where
  counted := by
    have counted := valid.counted
    have below : store.queueCurSize.toNat < store.queueMaxSize.toNat := by omega
    rw [enqueueBody_queueCurSize, SizeT.toNat_increment below]
    simp [counted]
  bounded := by
    simp only [contents_enqueueBody, List.length_append, List.length_singleton,
      enqueueBody_queueMaxSize]
    omega

theorem dequeueBody {store after : Store width C} (valid : store.Valid) {copyThrows : Bool}
    {value : α} (done : store.dequeueBody copyThrows = .done value after) : after.Valid := by
  have taken := contents_of_dequeueBody done
  obtain ⟨sameMax, oneLess⟩ := counters_of_dequeueBody done
  have counted := valid.counted
  have bounded := valid.bounded
  rw [taken, List.length_cons] at counted bounded
  constructor
  · rw [oneLess, SizeT.toNat_decrement (by omega)]
    omega
  · rw [sameMax]
    omega

/-- A valid queue whose counter differs from its bound has room. -/
theorem room_of_ne {store : Store width C} (valid : store.Valid)
    (notFull : store.queueCurSize ≠ store.queueMaxSize) :
    (store.contents : List α).length < store.queueMaxSize.toNat := by
  have counted := valid.counted
  have bounded := valid.bounded
  have differs : store.queueCurSize.toNat ≠ store.queueMaxSize.toNat :=
    fun same => notFull (BitVec.toNat_inj.mp same)
  omega

/-- A valid queue with a nonzero counter holds a message. -/
theorem nonempty_of_ne_zero {store : Store width C} (valid : store.Valid)
    (notEmpty : store.queueCurSize ≠ 0) : (store.contents : List α) ≠ [] := by
  intro empty
  apply notEmpty
  rw [SizeT.eq_zero_iff, valid.counted, empty, List.length_nil]

end Valid
end Contents
end Store
end BoostTest
