import BoostTest.Random.Period
import BoostTest.Random.Seed

/-!
# Finding out the state of an engine from its outputs

Tempering is injective and the recurrence has order `n`, so `n` outputs in a row give away all
outputs of the engine, those before included.  One output less does not: sooner or later an engine
puts out the `n - 1` words behind the first one of the array it started with, and the next output
tells the upper bits of that first word.
-/

namespace BoostTest
namespace MersenneTwisterEngine

open Recurrence WordBits

variable {p : Params}

/-- An output of an engine that has just been seeded or read. -/
theorem output_fresh (first : Vector (BitVec p.w) p.n) (k : Nat) :
    (Engine.fresh first).output k =
      some (temper p ((recurrence p).sequence first (p.n + k))) := by
  obtain ⟨start, grounded⟩ := grounded_of_discard (forLoop_self 0 _ (Engine.fresh first))
  exact grounded.output ((recurrence p).obeys_sequence first) k

/-- Equal outputs are equal terms. -/
theorem output_eq_iff (observable : p.Observable) {first first' : Vector (BitVec p.w) p.n}
    {k k' : Nat} :
    (Engine.fresh first).output k = (Engine.fresh first').output k' ↔
      (recurrence p).sequence first (p.n + k) = (recurrence p).sequence first' (p.n + k') := by
  rw [output_fresh, output_fresh, Option.some_inj, (temper_injective observable).eq_iff]

/-- Engines with `n` outputs in a row in common have all terms in common but the first one. -/
theorem terms_eq_of_outputs (observable : p.Observable) {first first' : Vector (BitVec p.w) p.n}
    {k k' : Nat}
    (window : ∀ j < p.n,
      (Engine.fresh first).output (k + j) = (Engine.fresh first').output (k' + j))
    {i i' : Nat} (positive : 1 ≤ i) (positive' : 1 ≤ i') (aligned : i + k' = i' + k) :
    (recurrence p).sequence first i = (recurrence p).sequence first' i' := by
  have obeys := (recurrence p).obeys_sequence first
  have obeys' := (recurrence p).obeys_sequence first'
  have inCommon (j : Nat) (within : j < p.n) : (recurrence p).sequence first (p.n + k + j) =
      (recurrence p).sequence first' (p.n + k' + j) := by
    have term := (output_eq_iff observable).mp (window j within)
    rwa [← Nat.add_assoc, ← Nat.add_assoc] at term
  have later := obeys.eq_of_window obeys' inCommon
  rcases Nat.le_total (p.n + k) i with above | below
  · exact eq_of_later later above (by omega)
  · have known := earlier_eq obeys obeys' observable.toReversible later (p.n + k - i) (by omega)
      (by omega)
    exact eq_of_later known (by omega) (by omega)

/-- The visible bits come round any number of times. -/
theorem visible_mul {X : Nat → BitVec p.w} {period : Nat}
    (returns : ∀ k, visible X (k + period) = visible X k) (times : Nat) :
    visible X (times * period) = visible X 0 := by
  induction times with
  | zero => rw [Nat.zero_mul]
  | succ times induction => rw [Nat.succ_mul, returns, induction]

/-- Sooner or later an engine puts out the words behind the first one of its array, and what comes
after them. -/
theorem exists_return (reversible : p.Reversible) (first : Vector (BitVec p.w) p.n) :
    ∃ k, ∀ j, (Engine.fresh first).output (k + j) =
      some (temper p ((recurrence p).sequence first (1 + j))) := by
  have obeys := (recurrence p).obeys_sequence first
  obtain ⟨period, positive, _, returns⟩ := exists_period obeys reversible
  have enough : p.n ≤ p.n * period := Nat.le_mul_of_pos_right p.n positive
  refine ⟨p.n * period - p.n + 1, fun j => ?_⟩
  have around := later_of_visible obeys obeys (visible_mul returns p.n) (Nat.le_add_right 1 j)
  have place : p.n + (p.n * period - p.n + 1 + j) = p.n * period + (1 + j) := by omega
  rw [output_fresh, place, around, Nat.zero_add]

/-- `n` outputs in a row determine all outputs, before and after, and `n - 1` do not even determine
the next one. -/
theorem outputs_determine {p : Params} (typedef : p ∈ typedefs) :
    (∀ (first first' : Vector (BitVec p.w) p.n) (k k' : Nat),
      (∀ j < p.n, (Engine.fresh first).output (k + j) = (Engine.fresh first').output (k' + j)) →
        ∀ i i', i + k' = i' + k →
          (Engine.fresh first).output i = (Engine.fresh first').output i') ∧
      ∃ (first first' : Vector (BitVec p.w) p.n) (k k' : Nat),
        (∀ j < p.n - 1,
          (Engine.fresh first).output (k + j) = (Engine.fresh first').output (k' + j)) ∧
          (Engine.fresh first).output (k + (p.n - 1)) ≠
            (Engine.fresh first').output (k' + (p.n - 1)) := by
  have observable := observable_of_typedef typedef
  have n_pos := p.n_pos
  have m_pos := p.m_pos
  have m_lt_n := p.m_lt_n
  constructor
  · intro first first' k k' window i i' aligned
    rw [output_eq_iff observable]
    exact terms_eq_of_outputs observable window (by omega) (by omega) (by omega)
  · -- the two arrays differ in the top bit of the first word only
    let zeros : Vector (BitVec p.w) p.n := .replicate p.n 0
    obtain ⟨k, outputs⟩ := exists_return observable.toReversible zeros
    obtain ⟨k', outputs'⟩ := exists_return observable.toReversible (repaired zeros)
    have term (first : Vector (BitVec p.w) p.n) (j : Nat) (within : j < p.n) :
        (recurrence p).sequence first j = first[j] := (recurrence p).sequence_of_lt first within
    have same (j : Nat) (within : j < p.n) (later : 1 ≤ j) :
        (recurrence p).sequence zeros j = (recurrence p).sequence (repaired zeros) j := by
      rw [term _ j within, term _ j within, getElem_repaired zeros within later]
    refine ⟨zeros, repaired zeros, k, k', fun j within => ?_, ?_⟩
    · rw [outputs, outputs', same (1 + j) (by omega) (Nat.le_add_right 1 j)]
    · rw [outputs, outputs', Nat.add_sub_of_le n_pos]
      intro equal
      have mixed := temper_injective observable (Option.some.inj equal)
      have ahead := same p.m m_lt_n m_pos
      have pairs : pair ((recurrence p).sequence zeros) 0 =
          pair ((recurrence p).sequence (repaired zeros)) 0 :=
        pair_eq_of_later ((recurrence p).obeys_sequence zeros)
          ((recurrence p).obeys_sequence (repaired zeros)) observable.top
          (by simpa using ahead) (by simpa using mixed)
      have upper := congrArg (· &&& upperMask p) pairs
      simp only [pair, join_and] at upper
      rw [term zeros 0 n_pos, term (repaired zeros) 0 n_pos] at upper
      refine firstWord_repaired_and zeros (upper.symm.trans ?_)
      simp [zeros]

/-- 623 outputs in a row of an `mt19937` do not determine the next one. -/
theorem outputs_determine_mt19937 :
    ∃ (first first' : Vector (BitVec mt19937.w) mt19937.n) (k k' : Nat),
      (∀ j < 623, (Engine.fresh first).output (k + j) = (Engine.fresh first').output (k' + j)) ∧
        (Engine.fresh first).output (k + 623) ≠ (Engine.fresh first').output (k' + 623) := by
  have typedef : mt19937 ∈ typedefs := by simp [typedefs]
  exact (outputs_determine typedef).2

end MersenneTwisterEngine
end BoostTest
