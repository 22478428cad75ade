import BoostTest.Random.Observation

/-!
# Comparing engines by what they print

`operator<<` prints the `n` terms before the next output; `operator==` compares arrays that may hold
different parts of the sequence.  Two engines compare equal exactly if they print the same.
-/

namespace BoostTest
namespace MersenneTwisterEngine

open Recurrence

variable {p : Params}

section Engines

variable {X Y Z : Nat → BitVec p.w} {time time' start start' : Nat} {g h engine : Engine p}

/-- Two sequences an engine is located in have the same terms to come. -/
theorem Located.later_eq (located : Located X time engine start)
    (located' : Located Z time' engine start') (obeys : (recurrence p).Obeys X)
    (obeys' : (recurrence p).Obeys Z) (j : Nat) : X (time + j) = Z (time' + j) := by
  have held (k : Nat) (within : k < p.n) : X (start + k) = Z (start' + k) := by
    have word := Slid.zero_iff.mp located.slid k within
    exact Option.some.inj (word.symm.trans (Slid.zero_iff.mp located'.slid k within))
  have later := obeys.eq_of_window obeys' held (engine.i + j)
  rwa [← Nat.add_assoc, ← Nat.add_assoc, located.position, located'.position] at later

/-- Engines that compare equal have the same terms to come. -/
theorem later_eq_of_equal (left : Grounded X time g start) (right : Grounded Y time' h start')
    (obeys : (recurrence p).Obeys X) (obeys' : (recurrence p).Obeys Y)
    (reversible : p.Reversible) (equals : g.equal h = some true) (j : Nat) :
    X (time + j) = Y (time' + j) := by
  obtain ⟨Z, common, _, _, obeysZ, level⟩ :=
    exists_level_of_equal left right obeys obeys' reversible equals
  calc
    X (time + j) = Z (common + j) := left.toLocated.later_eq level.left obeys obeysZ j
    _ = Y (time' + j) := (right.toLocated.later_eq level.right obeys' obeysZ j).symm

/-- `operator==` finds out whether the engines have the terms in common that they print. -/
theorem equal_decides_printed (left : Grounded X time g start)
    (right : Grounded Y time' h start') (obeys : (recurrence p).Obeys X)
    (obeys' : (recurrence p).Obeys Y) (reversible : p.Reversible) :
    ∃ result, g.equal h = some result ∧
      (result = true ↔ ∀ k < p.n, X (time - p.n + k) = Y (time' - p.n + k)) := by
  have n_pos := p.n_pos
  have enough := left.enough
  have enough' := right.enough
  have leftEnough (fewer : g.i < h.i) := left.behind (fewer.trans_le h.i_le_n)
  have rightEnough (more : h.i < g.i) := right.behind (more.trans_le g.i_le_n)
  obtain ⟨result, compared, _⟩ := equal_decides left.toLocated right.toLocated obeys obeys'
    reversible left.started right.started leftEnough rightEnough
  -- the oldest terms decide once those to come are known to agree
  have decides (later : ∀ j, X (time + j) = Y (time' + j)) :
      result = true ↔ X (time - p.n) = Y (time' - p.n) := by
    obtain ⟨again, comparedAgain, meaning⟩ :=
      equal_decides_oldest left right obeys obeys' reversible later
    obtain rfl : result = again := Option.some.inj (compared.symm.trans comparedAgain)
    exact meaning
  refine ⟨result, compared, fun equals => ?_, fun printed => ?_⟩
  · rw [equals] at compared
    have later := later_eq_of_equal left right obeys obeys' reversible compared
    have oldest := (decides later).mp equals
    have known := earlier_eq obeys obeys' reversible later (p.n - 1) (by omega) (by omega)
    intro k within
    cases k with
    | zero => exact oldest
    | succ k => exact eq_of_later known (by omega) (by omega)
  · have known := obeys.eq_of_window obeys' printed
    have later (j : Nat) : X (time + j) = Y (time' + j) :=
      eq_of_later known (by omega) (by omega)
    exact (decides later).mpr (known 0)

end Engines

/-- Whatever arrays they started with and however often they were called, two engines compare equal
exactly if they print the same, and unequal exactly if they do not. -/
theorem equal_iff_print (p : Params) (two_le_m : 2 ≤ p.m) (top : p.a.msb = true)
    (first first' : Vector (BitVec p.w) p.n) (calls calls' : Nat) {g h : Engine p}
    (ran : (Engine.fresh first).discard calls = some g)
    (ran' : (Engine.fresh first').discard calls' = some h) :
    ∃ printed printed', g.print = some printed ∧ h.print = some printed' ∧
      g.equal h = some (decide (printed = printed')) ∧
        g.notEqual h = some (decide (printed ≠ printed')) := by
  have obeys := (recurrence p).obeys_sequence first
  have obeys' := (recurrence p).obeys_sequence first'
  have reversible : p.Reversible := ⟨two_le_m, top⟩
  obtain ⟨start, left⟩ := grounded_of_discard ran
  obtain ⟨start', right⟩ := grounded_of_discard ran'
  obtain ⟨words, prints, slid⟩ := left.exists_print obeys reversible
  obtain ⟨words', prints', slid'⟩ := right.exists_print obeys' reversible
  obtain ⟨result, compared, meaning⟩ :=
    equal_decides_printed left right obeys obeys' reversible
  have sameText : result = decide (words.toList = words'.toList) := by
    rw [Bool.eq_iff_iff, meaning, decide_eq_true_iff, Vector.toList_inj, Vector.ext_iff]
    refine forall₂_congr fun k within => ?_
    rw [slid k within, slid' k within, if_neg (Nat.not_lt_zero k), Nat.add_zero, Nat.add_zero]
  refine ⟨words.toList, words'.toList, prints, prints', by rw [compared, sameText], ?_⟩
  rw [Engine.notEqual, compared, sameText, Option.map_some]
  simp

/-- An `mt19937` in the middle of a block and one that starts with the words it prints. -/
theorem equal_iff_print_mid_block :
    ∃ (g : Engine mt19937) (words : Vector (BitVec 32) 624),
      (Engine.fresh (.replicate mt19937.n 1)).discard 5 = some g ∧ g.i = 5 ∧
        g.print = some words.toList ∧ g.notEqual (.fresh words) = some false := by
  have reversible := reversible_mt19937
  have obeys := (recurrence mt19937).obeys_sequence (.replicate 624 1)
  obtain ⟨g, ran, block, started, represents⟩ :=
    exists_discard obeys (@Slid.sequence _ (recurrence mt19937) (.replicate 624 1)) 5
  obtain ⟨start, grounded⟩ := grounded_of_discard ran
  obtain ⟨words, prints, level, _⟩ := grounded.exists_level obeys reversible
  obtain ⟨printed, printed', _, _, equals, differs⟩ :=
    equal_iff_print mt19937 reversible.two_le_m reversible.top (.replicate 624 1) words 5 0 ran
      (forLoop_self 0 _ _)
  have same : decide (printed = printed') = true :=
    Option.some.inj (equals.symm.trans (level.equal obeys reversible))
  refine ⟨g, words, ran, (represents.locate started).1, prints, ?_⟩
  rw [differs, of_decide_eq_true same]
  simp

end MersenneTwisterEngine
end BoostTest
