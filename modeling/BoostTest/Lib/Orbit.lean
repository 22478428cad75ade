import Mathlib.Data.Finset.Card
import Mathlib.Tactic.Common

/-!
# Sequences of states that come round

A sequence of states, among finitely many, in which a state determines the one after it and the one
before, comes back to its first state and goes round from there.
-/

namespace BoostTest
namespace Orbit

variable {State : Type*} {states : Nat → State}

/-- A state determines the one after it. -/
def Forward (states : Nat → State) : Prop :=
  ∀ i j, states i = states j → states (i + 1) = states (j + 1)

/-- A state determines the one before it. -/
def Backward (states : Nat → State) : Prop :=
  ∀ i j, states (i + 1) = states (j + 1) → states i = states j

theorem Forward.eq_add (forward : Forward states) {i j : Nat} (same : states i = states j)
    (k : Nat) : states (i + k) = states (j + k) := by
  induction k with
  | zero => exact same
  | succ k induction => exact forward (i + k) (j + k) induction

theorem Backward.eq_of_add (backward : Backward states) {i j : Nat} (k : Nat)
    (same : states (i + k) = states (j + k)) : states i = states j := by
  induction k with
  | zero => exact same
  | succ k induction => exact induction (backward (i + k) (j + k) same)

/-- The sequence comes round before it has been through more states than there are. -/
theorem exists_period (forward : Forward states) (backward : Backward states)
    {among : Finset State} (inside : ∀ k, states k ∈ among) :
    ∃ period, 1 ≤ period ∧ period ≤ among.card ∧ ∀ k, states (k + period) = states k := by
  have more : among.card < (Finset.range (among.card + 1)).card := by
    rw [Finset.card_range]
    exact Nat.lt_succ_self among.card
  obtain ⟨i, iMember, j, jMember, different, same⟩ :=
    Finset.exists_ne_map_eq_of_card_lt_of_maps_to more fun k _ => inside k
  have iBound := Finset.mem_range.mp iMember
  have jBound := Finset.mem_range.mp jMember
  wlog before : i < j generalizing i j
  · exact this j jMember i iMember different.symm same.symm jBound iBound (by omega)
  obtain ⟨period, rfl⟩ := Nat.exists_eq_add_of_lt before
  refine ⟨period + 1, Nat.succ_pos period, by omega, fun k => ?_⟩
  have returns : states (period + 1) = states 0 := by
    refine backward.eq_of_add i ?_
    rw [Nat.zero_add, same]
    congr 1
    omega
  have onward := forward.eq_add returns k
  rwa [Nat.zero_add, Nat.add_comm] at onward

end Orbit
end BoostTest
