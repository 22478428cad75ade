import BoostTest.Lib.SizeT

/-!
# The container of a message queue

Both message queues take their container as a template parameter and use five of its operations.
`Container` names them; `Sequence` adds what `std::list` and `std::deque` promise, namely that the
operations are those of an unbounded sequence.
-/

namespace BoostTest

/-- The operations the message queues use of `_container_type`. -/
class Container (C : Type*) (α : outParam Type*) where
  /-- `push_back(value)`. -/
  pushBack : C → α → C
  /-- `*begin()`, which is undefined on an empty container. -/
  begin? : C → Option α
  /-- `pop_front()`, which is undefined on an empty container. -/
  popFront? : C → Option C
  /-- `clear()`. -/
  clear : C → C
  /-- `size()`. -/
  size : C → Nat

/-- A container that behaves as an unbounded sequence. -/
class Sequence (C : Type*) (α : outParam Type*) extends Container C α where
  /-- The default-constructed container. -/
  empty : C
  /-- The elements, oldest first. -/
  toList : C → List α
  toList_empty : toList empty = []
  toList_pushBack (container : C) (value : α) :
    toList (pushBack container value) = toList container ++ [value]
  begin?_eq (container : C) : begin? container = (toList container).head?
  popFront?_eq (container : C) : (popFront? container).map toList = (toList container).tail?
  toList_clear (container : C) : toList (clear container) = []
  size_eq (container : C) : size container = (toList container).length

namespace Sequence

attribute [simp] toList_empty toList_pushBack begin?_eq toList_clear size_eq

variable {C α : Type*} [Sequence C α]

theorem popFront?_of_cons {container : C} {value : α} {rest : List α}
    (contents : toList container = value :: rest) :
    ∃ shorter, Container.popFront? container = some shorter ∧ toList shorter = rest := by
  simpa [contents, Option.map_eq_some_iff] using popFront?_eq container

/-- `std::list`, modelled by the list of its elements. -/
instance instList {α : Type*} : Sequence (List α) α where
  pushBack list value := list ++ [value]
  begin? := List.head?
  popFront? := List.tail?
  clear _ := []
  size := List.length
  empty := []
  toList := id
  toList_empty := rfl
  toList_pushBack _ _ := rfl
  begin?_eq _ := rfl
  popFront?_eq _ := Option.map_id'
  toList_clear _ := rfl
  size_eq _ := rfl

end Sequence
end BoostTest
