import Mathlib.Algebra.BigOperators.Group.Finset.Basic
import Mathlib.Algebra.BigOperators.Group.Finset.Piecewise
import Mathlib.Data.Fintype.Card

/-!
# Totals over a finite family of threads

A concurrent system keeps the position of each thread in a function `pc : Thread → Position`.  The
total of a weight over all threads changes under `Function.update` by the weight of the one thread
that moved; counting the threads at a kind of position is the case of a zero-one weight.
-/

namespace BoostTest

open Function

variable {Thread Position Weight : Type*} [Fintype Thread]

/-- The total weight of the positions of all threads. -/
def tally [AddCommMonoid Weight] (weight : Position → Weight) (pc : Thread → Position) : Weight :=
  ∑ thread, weight (pc thread)

/-- The number of threads whose position satisfies `test`. -/
def count (test : Position → Bool) (pc : Thread → Position) : Nat :=
  (Finset.univ.filter fun thread => test (pc thread)).card

theorem tally_const_zero [AddCommMonoid Weight] {weight : Position → Weight}
    {pc : Thread → Position} (zero : ∀ thread, weight (pc thread) = 0) : tally weight pc = 0 :=
  Finset.sum_eq_zero fun thread _ => zero thread

theorem count_eq_tally (test : Position → Bool) (pc : Thread → Position) :
    count test pc = tally (fun position => (test position).toNat) pc := by
  rw [count, tally, Finset.card_filter]
  refine Finset.sum_congr rfl fun thread _ => ?_
  cases test (pc thread) <;> rfl

theorem count_pos_iff {test : Position → Bool} {pc : Thread → Position} :
    0 < count test pc ↔ ∃ thread, test (pc thread) = true := by
  simp [count, Finset.card_pos, Finset.filter_nonempty_iff]

theorem count_eq_zero_iff {test : Position → Bool} {pc : Thread → Position} :
    count test pc = 0 ↔ ∀ thread, test (pc thread) = false := by
  simp [count, Finset.card_eq_zero, Finset.filter_eq_empty_iff]

variable [DecidableEq Thread]

/-- Moving one thread exchanges its old weight for its new one. -/
theorem tally_update [AddCommMonoid Weight] (weight : Position → Weight) (pc : Thread → Position)
    (thread : Thread) (position : Position) :
    tally weight (update pc thread position) + weight (pc thread) =
      tally weight pc + weight position := by
  have moved := Finset.add_sum_erase Finset.univ
    (fun other => weight (update pc thread position other)) (Finset.mem_univ thread)
  have kept := Finset.add_sum_erase Finset.univ
    (fun other => weight (pc other)) (Finset.mem_univ thread)
  have others : ∑ other ∈ Finset.univ.erase thread, weight (update pc thread position other) =
      ∑ other ∈ Finset.univ.erase thread, weight (pc other) :=
    Finset.sum_congr rfl fun other member => by
      rw [update_of_ne (Finset.ne_of_mem_erase member)]
  rw [others, update_self] at moved
  rw [tally, tally, ← moved, ← kept]
  ac_rfl

/-- Moving one thread changes a count by the difference of its two positions. -/
theorem count_update (test : Position → Bool) (pc : Thread → Position) (thread : Thread)
    (position : Position) :
    count test (update pc thread position) + (test (pc thread)).toNat =
      count test pc + (test position).toNat := by
  simpa only [count_eq_tally] using
    tally_update (fun position => (test position).toNat) pc thread position

end BoostTest
