import Mathlib.Tactic.Common

/-!
# Two-tap recurrences computed in place

A recurrence of order `n` gives each term from the terms `n`, `n - 1` and `n - m` places before it.
A program keeps `n` consecutive terms in an array and replaces them by the next `n`, one after the
other and in place.  `Slid` describes the array on the way, with the terms already replaced and
those still to be replaced side by side.
-/

namespace BoostTest

/-- A rule that gives `X (k + order)` from `X k`, `X (k + 1)` and `X (k + lag)`. -/
structure Recurrence (α : Type*) where
  order : Nat
  lag : Nat
  next : α → α → α → α
  lag_pos : 1 ≤ lag
  lag_lt_order : lag < order

namespace Recurrence

variable {α : Type*} (recurrence : Recurrence α)

/-- The sequence obeys the rule from its first term on. -/
def Obeys (X : Nat → α) : Prop :=
  ∀ k, X (k + recurrence.order) =
    recurrence.next (X k) (X (k + 1)) (X (k + recurrence.lag))

/-- The terms that follow from the first `order` ones. -/
def sequence (first : Vector α recurrence.order) (k : Nat) : α :=
  if initial : k < recurrence.order then first[k]
  else
    recurrence.next (sequence first (k - recurrence.order))
      (sequence first (k - recurrence.order + 1))
      (sequence first (k - recurrence.order + recurrence.lag))
termination_by k
decreasing_by
  all_goals
    have := recurrence.lag_pos
    have := recurrence.lag_lt_order
    omega

variable (first : Vector α recurrence.order)

theorem sequence_of_lt {k : Nat} (initial : k < recurrence.order) :
    recurrence.sequence first k = first[k] := by
  rw [sequence, dif_pos initial]

theorem obeys_sequence : recurrence.Obeys (recurrence.sequence first) := by
  intro k
  rw [sequence, dif_neg (by omega), Nat.add_sub_cancel]

/-- A rule that respects an operation gives sequences that respect it. -/
theorem sequence_zipWith {op : α → α → α}
    (respects : ∀ word word' after after' ahead ahead',
      recurrence.next (op word word') (op after after') (op ahead ahead') =
        op (recurrence.next word after ahead) (recurrence.next word' after' ahead'))
    (first' : Vector α recurrence.order) (k : Nat) :
    recurrence.sequence (Vector.zipWith op first first') k =
      op (recurrence.sequence first k) (recurrence.sequence first' k) := by
  induction k using Nat.strongRecOn with
  | ind k induction =>
      have lag_pos := recurrence.lag_pos
      have lag_lt_order := recurrence.lag_lt_order
      by_cases initial : k < recurrence.order
      · rw [recurrence.sequence_of_lt _ initial, recurrence.sequence_of_lt _ initial,
          recurrence.sequence_of_lt _ initial, Vector.getElem_zipWith]
      · obtain ⟨earlier, rfl⟩ := Nat.exists_eq_add_of_le' (Nat.le_of_not_lt initial)
        rw [recurrence.obeys_sequence, recurrence.obeys_sequence first,
          recurrence.obeys_sequence first', induction earlier (by omega),
          induction (earlier + 1) (by omega), induction (earlier + recurrence.lag) (by omega),
          respects]

variable {recurrence}

section Obeys

variable {X Y : Nat → α}

/-- The rule does not look at where in the sequence it is. -/
theorem Obeys.shift (obeys : recurrence.Obeys X) (start : Nat) :
    recurrence.Obeys fun k => X (start + k) := by
  intro k
  simpa only [Nat.add_assoc] using obeys (start + k)

/-- Sequences that agree in `order` consecutive terms agree from there on. -/
theorem Obeys.eq_of_window (obeys : recurrence.Obeys X) (obeys' : recurrence.Obeys Y)
    {start start' : Nat} (window : ∀ j < recurrence.order, X (start + j) = Y (start' + j))
    (k : Nat) : X (start + k) = Y (start' + k) := by
  induction k using Nat.strongRecOn with
  | ind k induction =>
      have lag_pos := recurrence.lag_pos
      have lag_lt_order := recurrence.lag_lt_order
      by_cases initial : k < recurrence.order
      · exact window k initial
      · obtain ⟨earlier, rfl⟩ := Nat.exists_eq_add_of_le' (Nat.le_of_not_lt initial)
        have term := obeys (start + earlier)
        have term' := obeys' (start' + earlier)
        have word := induction earlier (by omega)
        have after := induction (earlier + 1) (by omega)
        have ahead := induction (earlier + recurrence.lag) (by omega)
        simp only [← Nat.add_assoc] at after ahead ⊢
        rw [term, term', word, after, ahead]

end Obeys

/-- The array holds the terms from `start` on, the first `done` of them already replaced by those
`order` places later. -/
def Slid (X : Nat → α) (start done : Nat) (x : Vector α recurrence.order) : Prop :=
  ∀ i (within : i < recurrence.order),
    x[i] = X (start + i + if i < done then recurrence.order else 0)

namespace Slid

variable {X : Nat → α} {start done : Nat} {x : Vector α recurrence.order}

theorem getElem?_of_le (slid : Slid X start done x) {i : Nat} (pending : done ≤ i)
    (within : i < recurrence.order) : x[i]? = some (X (start + i)) := by
  rw [Vector.getElem?_eq_getElem within, slid i within, if_neg (by omega), Nat.add_zero]

theorem getElem?_of_lt (slid : Slid X start done x) {i : Nat} (replaced : i < done)
    (within : i < recurrence.order) : x[i]? = some (X (start + i + recurrence.order)) := by
  rw [Vector.getElem?_eq_getElem within, slid i within, if_pos replaced]

/-- The array holds `order` consecutive terms. -/
theorem zero_iff {x : Vector α recurrence.order} :
    Slid X start 0 x ↔ ∀ i < recurrence.order, x[i]? = some (X (start + i)) := by
  constructor
  · exact fun slid i within => slid.getElem?_of_le (Nat.zero_le i) within
  · intro terms i within
    have term := terms i within
    rw [Vector.getElem?_eq_getElem within] at term
    rw [if_neg (Nat.not_lt_zero i), Nat.add_zero]
    exact Option.some.inj term

/-- Only one array holds given terms. -/
theorem unique (slid : Slid X start done x) {other : Vector α recurrence.order}
    (slid' : Slid X start done other) : x = other :=
  Vector.ext fun i within => (slid i within).trans (slid' i within).symm

/-- Replacing the next term. -/
theorem set (slid : Slid X start done x) (obeys : recurrence.Obeys X)
    (within : done < recurrence.order) :
    Slid X start (done + 1)
      (x.set done (recurrence.next (X (start + done)) (X (start + done + 1))
        (X (start + done + recurrence.lag)))) := by
  intro i inside
  rw [Vector.getElem_set]
  split
  case isTrue same =>
    subst same
    rw [if_pos (by omega), obeys]
  case isFalse different =>
    rw [slid i inside]
    congr 2
    exact if_congr (by omega) rfl rfl

/-- The initial array holds the first terms of its sequence. -/
theorem sequence (first : Vector α recurrence.order) :
    Slid (recurrence.sequence first) 0 0 first := by
  intro i within
  rw [if_neg (by omega), Nat.add_zero, Nat.zero_add, sequence_of_lt]

/-- With all terms replaced, the array has moved on by its length. -/
theorem finish (slid : Slid X start recurrence.order x) :
    Slid X (start + recurrence.order) 0 x := by
  intro i within
  rw [slid i within, if_pos within, if_neg (by omega), Nat.add_zero]
  congr 1
  omega

end Slid
end Recurrence
end BoostTest
