import BoostTest.Lib.Orbit
import BoostTest.Random.Observation
import Mathlib.Algebra.BigOperators.Group.Finset.Basic
import Mathlib.Data.FinEnum
import Mathlib.Data.Fintype.BigOperators
import Mathlib.Data.Fintype.Prod

/-!
# The period of the engine

The terms to come depend on the upper bits of one term and on the `n - 1` terms after it.  These
bits determine those one place later and, the recurrence being reversible, those one place earlier.
So the outputs come round, after at most as many calls as there are nonzero states.
-/

namespace BoostTest
namespace MersenneTwisterEngine

open Recurrence WordBits

variable {p : Params}

/-- The bits that the terms to come depend on. -/
abbrev Visible (p : Params) := BitVec (p.w - p.r) × (Fin (p.n - 1) → BitVec p.w)

/-- The bits at `k` that the terms to come depend on. -/
def visible (X : Nat → BitVec p.w) (k : Nat) : Visible p :=
  ((X k).extractLsb' p.r (p.w - p.r), fun j => X (k + 1 + j))

theorem card_bitVec (w : Nat) : Fintype.card (BitVec w) = 2 ^ w := by
  rw [← FinEnum.card_eq_fintypeCard, FinEnum.card_bitVec]

theorem card_visible (p : Params) : Fintype.card (Visible p) = 2 ^ (p.n * p.w - p.r) := by
  have r_lt_w := p.r_lt_w
  obtain ⟨n, n_eq⟩ := Nat.exists_eq_add_one.mpr p.n_pos
  rw [Fintype.card_prod, Fintype.card_fun, Fintype.card_fin, card_bitVec, card_bitVec, ← pow_mul,
    ← pow_add, n_eq, Nat.add_sub_cancel, Nat.succ_mul, Nat.mul_comm p.w n]
  congr 1
  omega

theorem getLsbD_upperMask (i : Nat) :
    (upperMask p).getLsbD i = (decide (i < p.w) && decide (p.r ≤ i)) := by
  rw [upperMask, BitVec.getLsbD_shiftLeft, BitVec.getLsbD_allOnes, Bool.and_assoc]
  by_cases high : p.r ≤ i
  · by_cases within : i < p.w
    · have inside : i - p.r < p.w := by omega
      simp [high, within, inside]
    · simp [within]
  · simp [high, Nat.lt_of_not_le high]

/-- The bits cut out of a word are those inside the mask. -/
theorem extractLsb'_eq_iff (word other : BitVec p.w) :
    word.extractLsb' p.r (p.w - p.r) = other.extractLsb' p.r (p.w - p.r) ↔
      word &&& upperMask p = other &&& upperMask p := by
  constructor
  · intro same
    apply BitVec.eq_of_getLsbD_eq
    intro i within
    rw [BitVec.getLsbD_and, BitVec.getLsbD_and, getLsbD_upperMask]
    by_cases high : p.r ≤ i
    · have inside : i - p.r < p.w - p.r := by omega
      have here := congrArg (BitVec.getLsbD · (i - p.r)) same
      simp only [BitVec.getLsbD_extractLsb', Nat.add_sub_of_le high, inside, decide_true,
        Bool.true_and] at here
      rw [here]
    · simp [high]
  · intro same
    apply BitVec.eq_of_getLsbD_eq
    intro i within
    have inside : p.r + i < p.w := by omega
    have here := congrArg (BitVec.getLsbD · (p.r + i)) same
    simp only [BitVec.getLsbD_and, getLsbD_upperMask, inside, Nat.le_add_right, decide_true,
      Bool.and_true] at here
    rw [BitVec.getLsbD_extractLsb', BitVec.getLsbD_extractLsb', here]

section Sequences

variable {X Y : Nat → BitVec p.w} {i j : Nat}

theorem visible_eq_iff :
    visible X i = visible Y j ↔ X i &&& upperMask p = Y j &&& upperMask p ∧
      ∀ k < p.n, 1 ≤ k → X (i + k) = Y (j + k) := by
  rw [visible, visible, Prod.mk.injEq, extractLsb'_eq_iff, funext_iff]
  refine and_congr_right fun _ => ⟨fun same k within later => ?_, fun same k => ?_⟩
  · obtain ⟨before, rfl⟩ := Nat.exists_eq_add_of_le later
    have term := same ⟨before, by omega⟩
    simpa only [Nat.add_assoc] using term
  · have within := k.isLt
    have term := same (1 + k) (by omega) (Nat.le_add_right 1 k)
    simpa only [Nat.add_assoc] using term

/-- All terms after the first depend on the visible bits only. -/
theorem later_of_visible (obeys : (recurrence p).Obeys X) (obeys' : (recurrence p).Obeys Y)
    (same : visible X i = visible Y j) {k : Nat} (later : 1 ≤ k) : X (i + k) = Y (j + k) := by
  obtain ⟨upper, others⟩ := visible_eq_iff.mp same
  exact eq_of_upper_eq (obeys.shift i) (obeys'.shift j) upper
    (fun k positive within => others k within positive) k later

/-- The visible bits determine those one place later. -/
theorem visible_succ (obeys : (recurrence p).Obeys X) (obeys' : (recurrence p).Obeys Y)
    (same : visible X i = visible Y j) : visible X (i + 1) = visible Y (j + 1) := by
  refine visible_eq_iff.mpr ⟨?_, fun k _ _ => ?_⟩
  · rw [later_of_visible obeys obeys' same (Nat.le_refl 1)]
  · rw [Nat.add_assoc, Nat.add_assoc]
    exact later_of_visible obeys obeys' same (Nat.le_add_right 1 k)

/-- The visible bits determine those one place earlier. -/
theorem visible_pred (obeys : (recurrence p).Obeys X) (obeys' : (recurrence p).Obeys Y)
    (reversible : p.Reversible) (same : visible X (i + 1) = visible Y (j + 1)) :
    visible X i = visible Y j := by
  have later (k : Nat) : X (i + 2 + k) = Y (j + 2 + k) := by
    have term := later_of_visible obeys obeys' same (Nat.le_add_right 1 k)
    rwa [← Nat.add_assoc, ← Nat.add_assoc] at term
  have upper : X i &&& upperMask p = Y j &&& upperMask p :=
    upper_eq obeys obeys' reversible later (Nat.le_add_left 2 i) (Nat.le_add_left 2 j)
  refine visible_eq_iff.mpr ⟨upper, fun k _ positive => ?_⟩
  have known := earlier_eq obeys obeys' reversible later 1 (by omega) (by omega)
  exact eq_of_later known (by omega) (by omega)

end Sequences

/-- The sequence of zeros. -/
theorem obeys_zero (p : Params) : (recurrence p).Obeys fun _ => 0 := by
  intro k
  simp [mix]

section Period

variable {X : Nat → BitVec p.w}

/-- A sequence with no visible bit set at its start has none set anywhere. -/
theorem visible_eq_zero (obeys : (recurrence p).Obeys X)
    (zero : visible X 0 = visible (fun _ => 0) 0) (k : Nat) :
    visible X k = visible (fun _ => 0) 0 := by
  induction k with
  | zero => exact zero
  | succ k induction => exact visible_succ obeys (obeys_zero p) induction

/-- A sequence with a visible bit set at its start has one set everywhere. -/
theorem visible_ne_zero (obeys : (recurrence p).Obeys X) (reversible : p.Reversible)
    (nonzero : visible X 0 ≠ visible (fun _ => 0) 0) (k : Nat) :
    visible X k ≠ visible (fun _ => 0) 0 := by
  induction k with
  | zero => exact nonzero
  | succ k induction =>
      intro zero
      exact induction (visible_pred obeys (obeys_zero p) reversible zero)

/-- The visible bits come round. -/
theorem exists_period (obeys : (recurrence p).Obeys X) (reversible : p.Reversible) :
    ∃ period, 1 ≤ period ∧ period ≤ 2 ^ (p.n * p.w - p.r) - 1 ∧
      ∀ k, visible X (k + period) = visible X k := by
  by_cases zero : visible X 0 = visible (fun _ => 0) 0
  · have bits : 0 < p.n * p.w - p.r := by
      have r_lt_w := p.r_lt_w
      have one_le_n := Nat.le_mul_of_pos_left p.w p.n_pos
      omega
    have two_le := Nat.one_lt_two_pow bits.ne'
    refine ⟨1, Nat.le_refl 1, by omega, fun k => ?_⟩
    rw [visible_eq_zero obeys zero (k + 1), visible_eq_zero obeys zero k]
  · have inside (k : Nat) : visible X k ∈ Finset.univ.erase (visible (fun _ => 0) 0) :=
      Finset.mem_erase.mpr ⟨visible_ne_zero obeys reversible zero k, Finset.mem_univ _⟩
    obtain ⟨period, positive, short, returns⟩ := @Orbit.exists_period _ (visible X)
      (fun _ _ => visible_succ obeys obeys) (fun _ _ => visible_pred obeys obeys reversible) _
      inside
    rw [Finset.card_erase_of_mem (Finset.mem_univ _), Finset.card_univ, card_visible] at short
    exact ⟨period, positive, short, returns⟩

end Period

/-- From any array the outputs come round, from the first one on, after no more calls than there are
nonzero settings of the `n * w - r` bits that matter; and an engine that has put out a word compares
equal to itself one period later. -/
theorem outputs_come_round (p : Params) (two_le_m : 2 ≤ p.m) (top : p.a.msb = true)
    (first : Vector (BitVec p.w) p.n) :
    ∃ period, 1 ≤ period ∧ period ≤ 2 ^ (p.n * p.w - p.r) - 1 ∧
      ∀ calls, ∃ g h, (Engine.fresh first).discard calls = some g ∧
        (Engine.fresh first).discard (calls + period) = some h ∧ SameOutputs g h ∧
          (1 ≤ calls → g.equal h = some true) := by
  have obeys := (recurrence p).obeys_sequence first
  have slid := @Slid.sequence _ (recurrence p) first
  have reversible : p.Reversible := ⟨two_le_m, top⟩
  obtain ⟨period, positive, short, returns⟩ := exists_period obeys reversible
  refine ⟨period, positive, short, fun calls => ?_⟩
  obtain ⟨g, ran, _⟩ := exists_discard obeys slid calls
  obtain ⟨h, ran', _⟩ := exists_discard obeys slid (calls + period)
  obtain ⟨start, left⟩ := grounded_of_discard ran
  obtain ⟨start', right⟩ := grounded_of_discard ran'
  have around (k : Nat) (later : 1 ≤ k) : (recurrence p).sequence first k =
      (recurrence p).sequence first (k + period) := by
    have term := later_of_visible obeys obeys (returns 0) later
    rw [Nat.zero_add, Nat.zero_add, Nat.add_comm period k] at term
    exact term.symm
  have later (j : Nat) : (recurrence p).sequence first (p.n + calls + j) =
      (recurrence p).sequence first (p.n + (calls + period) + j) := by
    have place : p.n + (calls + period) + j = p.n + calls + j + period := by omega
    rw [place]
    exact around _ (by have n_pos := p.n_pos; omega)
  refine ⟨g, h, ran, ran', fun k => ⟨_, left.output obeys k, ?_⟩, fun called => ?_⟩
  · rw [later]
    exact right.output obeys k
  · obtain ⟨result, compared, meaning⟩ :=
      equal_decides_oldest left right obeys obeys reversible later
    rw [compared, meaning.mpr]
    rw [Nat.add_sub_cancel_left, Nat.add_sub_cancel_left]
    exact around calls called

/-- An `mt19937` comes round within `2 ^ 19937 - 1` calls. -/
theorem outputs_come_round_mt19937 :
    ∃ period, 1 ≤ period ∧ period ≤ 2 ^ 19937 - 1 ∧
      ∃ h, (@Engine.fresh mt19937 (.replicate mt19937.n 1)).discard period = some h ∧
        SameOutputs (.fresh (.replicate mt19937.n 1)) h := by
  have bits : mt19937.n * mt19937.w - mt19937.r = 19937 := rfl
  obtain ⟨period, positive, short, returns⟩ :=
    outputs_come_round mt19937 reversible_mt19937.two_le_m reversible_mt19937.top
      (.replicate mt19937.n 1)
  obtain ⟨g, h, ran, ran', same, _⟩ := returns 0
  obtain rfl := Option.some.inj ((forLoop_self 0 _ _).symm.trans ran)
  rw [Nat.zero_add] at ran'
  rw [bits] at short
  exact ⟨period, positive, short, h, ran', same⟩

end MersenneTwisterEngine
end BoostTest
