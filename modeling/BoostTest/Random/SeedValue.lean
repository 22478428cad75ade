import BoostTest.Random.Printed
import BoostTest.Random.Recovery

/-!
# Seeding from one word

`seed(value)` forgets the state it is given, and no two seeds come to the same: the second word of
the array is an injective function of the seed, and all outputs depend on it.
-/

namespace BoostTest
namespace MersenneTwisterEngine

open Recurrence WordBits

variable {p : Params}

namespace Seeded

variable {value value' : BitVec p.w} {x y : Vector (BitVec p.w) p.n}

/-- The seed determines the array. -/
theorem unique (seeded : Seeded value x) (seeded' : Seeded value y) : x = y := by
  refine Vector.ext fun k within => ?_
  induction k with
  | zero => exact seeded.first.trans seeded'.first.symm
  | succ k induction =>
      rw [seeded.later (k + 1) within (Nat.succ_pos k) within,
        seeded'.later (k + 1) within (Nat.succ_pos k) within]
      simp only [Nat.add_sub_cancel]
      rw [induction (Nat.lt_of_succ_lt within)]

/-- The second word of the array determines the seed. -/
theorem value_eq (seeded : Seeded value x) (seeded' : Seeded value' y) (wide : 2 < p.w)
    (odd : p.f.toNat % 2 = 1) (within : 1 < p.n) (same : x[1] = y[1]) : value = value' := by
  have shiftInjective :
      Function.Injective fun word : BitVec p.w => word ^^^ (word >>> (p.w - 2)) := by
    simpa using xor_ushiftRight_injective (Nat.sub_pos_of_lt wide) (BitVec.allOnes p.w)
  rw [seeded.later 1 within (Nat.le_refl 1) within,
    seeded'.later 1 within (Nat.le_refl 1) within] at same
  have start : x[1 - 1] = value := seeded.first
  have start' : y[1 - 1] = value' := seeded'.first
  rw [start, start'] at same
  have products := (BitVec.add_left_inj (BitVec.ofNat p.w 1)).mp same
  exact shiftInjective (mul_injective_of_odd odd products)

end Seeded

/-- What it takes of the parameters to tell seeds apart. -/
structure Params.Seedable (p : Params) : Prop extends p.Observable where
  wide : 2 < p.w
  odd : p.f.toNat % 2 = 1

theorem seedable_of_typedef (typedef : p ∈ typedefs) : p.Seedable := by
  have observable := observable_of_typedef typedef
  simp only [typedefs, List.mem_cons, List.not_mem_nil, or_false] at typedef
  rcases typedef with rfl | rfl | rfl <;> exact ⟨observable, by decide, by decide⟩

/-- Two seeds differ somewhere in any `n` outputs in a row. -/
theorem exists_output_ne (seedable : p.Seedable) {value value' : BitVec p.w}
    {x y : Vector (BitVec p.w) p.n} (seeded : Seeded value x) (seeded' : Seeded value' y)
    (different : value ≠ value') (k : Nat) :
    ∃ j < p.n, (Engine.fresh x).output (k + j) ≠ (Engine.fresh y).output (k + j) := by
  have two_le_m := seedable.two_le_m
  have m_lt_n := p.m_lt_n
  by_contra none
  have window (j : Nat) (within : j < p.n) :
      (Engine.fresh x).output (k + j) = (Engine.fresh y).output (k + j) := by
    by_contra differs
    exact none ⟨j, within, differs⟩
  have same := terms_eq_of_outputs seedable.toObservable window (Nat.le_refl 1) (Nat.le_refl 1) rfl
  have inArray : 1 < p.n := by omega
  have term (first : Vector (BitVec p.w) p.n) :
      (recurrence p).sequence first 1 = first[1] := (recurrence p).sequence_of_lt first inArray
  rw [term, term] at same
  exact different (seeded.value_eq seeded' seedable.wide seedable.odd inArray same)

/-- Engines that differ in an output to come compare unequal. -/
theorem equal_eq_false_of_output_ne (reversible : p.Reversible)
    {first first' : Vector (BitVec p.w) p.n} {calls j : Nat} {g h : Engine p}
    (ran : (Engine.fresh first).discard calls = some g)
    (ran' : (Engine.fresh first').discard calls = some h)
    (differs : (Engine.fresh first).output (calls + j) ≠ (Engine.fresh first').output (calls + j)) :
    g.equal h = some false := by
  have obeys := (recurrence p).obeys_sequence first
  have obeys' := (recurrence p).obeys_sequence first'
  obtain ⟨start, left⟩ := grounded_of_discard ran
  obtain ⟨start', right⟩ := grounded_of_discard ran'
  obtain ⟨result, compared, meaning⟩ := equal_decides_printed left right obeys obeys' reversible
  cases result with
  | false => exact compared
  | true =>
      refine (differs ?_).elim
      rw [output_fresh, output_fresh, ← Nat.add_assoc,
        later_eq_of_equal left right obeys obeys' reversible compared j]

/-- `seed(value)` comes to the same state from any other, and different seeds stay apart: wherever
the two engines have come to, they differ in one of the next `n` outputs and compare unequal.  In
particular `seed()` is `seed(default_seed)` and no other `seed(value)`. -/
theorem seedValue_injective {p : Params} (typedef : p ∈ typedefs) (engine engine' : Engine p) :
    (∀ value, engine.seedValue value = engine'.seedValue value) ∧
      (∀ value value', value ≠ value' → ∃ g h, engine.seedValue value = some g ∧
        engine'.seedValue value' = some h ∧
          ∀ calls, (∃ j < p.n, g.output (calls + j) ≠ h.output (calls + j)) ∧
            ∃ g' h', g.discard calls = some g' ∧ h.discard calls = some h' ∧
              g'.equal h' = some false) ∧
        ∀ value, engine.seed = engine'.seedValue value ↔ value = Engine.defaultSeed p := by
  have seedable := seedable_of_typedef typedef
  have forgets (value : BitVec p.w) : engine.seedValue value = engine'.seedValue value := by
    obtain ⟨x, seeds, seeded⟩ := exists_seeded engine value
    obtain ⟨y, seeds', seeded'⟩ := exists_seeded engine' value
    rw [seeds, seeds', seeded.unique seeded']
  refine ⟨forgets, fun value value' different => ?_, fun value => ⟨fun same => ?_, ?_⟩⟩
  · obtain ⟨x, seeds, seeded⟩ := exists_seeded engine value
    obtain ⟨y, seeds', seeded'⟩ := exists_seeded engine' value'
    refine ⟨_, _, seeds, seeds', fun calls => ?_⟩
    obtain ⟨j, within, differs⟩ := exists_output_ne seedable seeded seeded' different calls
    obtain ⟨g, ran, _⟩ := exists_discard ((recurrence p).obeys_sequence x)
      (@Slid.sequence _ (recurrence p) x) calls
    obtain ⟨h, ran', _⟩ := exists_discard ((recurrence p).obeys_sequence y)
      (@Slid.sequence _ (recurrence p) y) calls
    exact ⟨⟨j, within, differs⟩, g, h, ran, ran',
      equal_eq_false_of_output_ne seedable.toReversible ran ran' differs⟩
  · by_contra different
    obtain ⟨x, seeds, seeded⟩ := exists_seeded engine (Engine.defaultSeed p)
    obtain ⟨y, seeds', seeded'⟩ := exists_seeded engine' value
    obtain ⟨j, _, differs⟩ := exists_output_ne seedable seeded seeded' (Ne.symm different) 0
    rw [Engine.seed, seeds, seeds', Option.some_inj] at same
    exact differs (by rw [same])
  · rintro rfl
    exact forgets (Engine.defaultSeed p)

/-- An `mt19937` seeded with one never compares equal to one seeded with two. -/
theorem seedValue_injective_mt19937 :
    ∃ g h : Engine mt19937, (Engine.fresh (.replicate mt19937.n 0)).seedValue 1 = some g ∧
      (Engine.fresh (.replicate mt19937.n 0)).seedValue 2 = some h ∧
        ∀ calls, ∃ g' h', g.discard calls = some g' ∧ h.discard calls = some h' ∧
          g'.equal h' = some false := by
  have typedef : mt19937 ∈ typedefs := by simp [typedefs]
  obtain ⟨_, apart, _⟩ := seedValue_injective typedef (.fresh (.replicate mt19937.n 0))
    (.fresh (.replicate mt19937.n 0))
  obtain ⟨g, h, seeds, seeds', differ⟩ := apart 1 2 (by decide)
  exact ⟨g, h, seeds, seeds', fun calls => (differ calls).2⟩

end MersenneTwisterEngine
end BoostTest
