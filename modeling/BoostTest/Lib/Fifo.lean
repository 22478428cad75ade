import Mathlib.Data.List.Basic
import Mathlib.Tactic.Common

/-!
# The bounded first-in first-out queue

The abstract queue: a list of at most `capacity` values, appended to at one end, taken from at the
other, or emptied at once.  What was inserted is what was removed followed by what is still there.
-/

namespace BoostTest
namespace Fifo

variable {α : Type*}

/-- The operations of the abstract queue, with the values they move. -/
inductive Op (α : Type*) where
  | push (value : α)
  | pop (value : α)
  | clear (values : List α)
  deriving DecidableEq, Repr

/-- The values an operation puts into the queue. -/
@[simp]
def Op.inserted : Op α → List α
  | push value => [value]
  | pop _ => []
  | clear _ => []

/-- The values an operation takes out of the queue. -/
@[simp]
def Op.removed : Op α → List α
  | push _ => []
  | pop value => [value]
  | clear values => values

/-- One operation on a queue of the given capacity. -/
inductive Step (capacity : Nat) : List α → Op α → List α → Prop
  | push {contents : List α} (value : α) (room : contents.length < capacity) :
      Step capacity contents (.push value) (contents ++ [value])
  | pop (value : α) (rest : List α) : Step capacity (value :: rest) (.pop value) rest
  | clear (contents : List α) : Step capacity contents (.clear contents) []

/-- A finite sequence of operations, in order. -/
inductive Path (capacity : Nat) (initial : List α) : List (Op α) → List α → Prop
  | nil : Path capacity initial [] initial
  | snoc {ops : List (Op α)} {middle final : List α} {op : Op α} :
      Path capacity initial ops middle → Step capacity middle op final →
      Path capacity initial (ops ++ [op]) final

/-- All values inserted, in order. -/
def inserted (ops : List (Op α)) : List α := ops.flatMap Op.inserted

/-- All values removed, in order. -/
def removed (ops : List (Op α)) : List α := ops.flatMap Op.removed

@[simp]
theorem inserted_append (front back : List (Op α)) :
    inserted (front ++ back) = inserted front ++ inserted back :=
  List.flatMap_append

@[simp]
theorem removed_append (front back : List (Op α)) :
    removed (front ++ back) = removed front ++ removed back :=
  List.flatMap_append

@[simp]
theorem inserted_singleton (op : Op α) : inserted [op] = op.inserted :=
  List.flatMap_singleton ..

@[simp]
theorem removed_singleton (op : Op α) : removed [op] = op.removed :=
  List.flatMap_singleton ..

theorem Step.conserves {capacity : Nat} {before after : List α} {op : Op α}
    (step : Step capacity before op after) :
    before ++ op.inserted = op.removed ++ after := by
  cases step <;> simp

theorem Step.length_le {capacity : Nat} {before after : List α} {op : Op α}
    (step : Step capacity before op after) (bounded : before.length ≤ capacity) :
    after.length ≤ capacity := by
  cases step with
  | push value room =>
      rw [List.length_append, List.length_singleton]
      omega
  | pop value rest =>
      rw [List.length_cons] at bounded
      omega
  | clear => exact Nat.zero_le capacity

/-- What was there and what was inserted is what was removed and what is left, in order. -/
theorem Path.conserves {capacity : Nat} {initial final : List α} {ops : List (Op α)}
    (path : Path capacity initial ops final) :
    initial ++ inserted ops = removed ops ++ final := by
  induction path with
  | nil => simp [inserted, removed]
  | @snoc ops middle final op _ step induction =>
      calc
        initial ++ inserted (ops ++ [op]) = (initial ++ inserted ops) ++ op.inserted := by simp
        _ = removed ops ++ (middle ++ op.inserted) := by rw [induction, List.append_assoc]
        _ = removed ops ++ (op.removed ++ final) := by rw [step.conserves]
        _ = removed (ops ++ [op]) ++ final := by simp

/-- The queue never exceeds its capacity. -/
theorem Path.length_le {capacity : Nat} {initial final : List α} {ops : List (Op α)}
    (path : Path capacity initial ops final) (bounded : initial.length ≤ capacity) :
    final.length ≤ capacity := by
  induction path with
  | nil => exact bounded
  | snoc _ step induction => exact step.length_le induction

end Fifo
end BoostTest
