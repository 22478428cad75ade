import BoostTest.Random.Recovery
import Mathlib.SetTheory.Cardinal.Finite

/-!
# Every `n - 1` outputs are equally likely

The bits that matter determine those one call later and one call earlier, so over all arrays an
engine can start with they are spread evenly at any time; and `n - 1` outputs in a row are all of
them but the upper bits of one word.
-/

namespace BoostTest

/-- Where a function is a bijection to pairs, each second half has as many preimages as there are
first halves. -/
theorem card_fiber {α Free Fixed : Type*} {f : α → Free × Fixed} (bijective : Function.Bijective f)
    (fixed : Fixed) : Nat.card {x // (f x).2 = fixed} = Nat.card Free := by
  refine Nat.card_congr (Equiv.ofBijective (fun x => (f x.1).1) ⟨?_, fun free => ?_⟩)
  · rintro ⟨x, xFixed⟩ ⟨y, yFixed⟩ same
    exact Subtype.ext (bijective.1 (Prod.ext same (xFixed.trans yFixed.symm)))
  · obtain ⟨x, reached⟩ := bijective.2 (free, fixed)
    exact ⟨⟨x, congrArg Prod.snd reached⟩, congrArg Prod.fst reached⟩

theorem card_vector (α : Type*) (n : Nat) : Nat.card (Vector α n) = Nat.card α ^ n := by
  have indexed : Vector α n ≃ (Fin n → α) :=
    { toFun := fun vector i => vector[i]
      invFun := Vector.ofFn
      left_inv := fun vector => by ext i within; simp
      right_inv := fun entries => by ext i; simp }
  rw [Nat.card_congr indexed, Nat.card_fun, Nat.card_fin]

namespace MersenneTwisterEngine

open Recurrence

variable {p : Params}

section Sequences

variable {X Y : Nat → BitVec p.w} {i j : Nat}

/-- The visible bits determine those any number of places earlier. -/
theorem visible_of_add (obeys : (recurrence p).Obeys X) (obeys' : (recurrence p).Obeys Y)
    (reversible : p.Reversible) (k : Nat) (same : visible X (i + k) = visible Y (j + k)) :
    visible X i = visible Y j := by
  induction k with
  | zero => exact same
  | succ k induction => exact induction (visible_pred obeys obeys' reversible same)

end Sequences

/-- The bits outside the mask of a word and those inside it make up the word. -/
theorem eq_of_low_of_upper {word other : BitVec p.w}
    (low : word.extractLsb' 0 p.r = other.extractLsb' 0 p.r)
    (upper : word &&& upperMask p = other &&& upperMask p) : word = other := by
  apply BitVec.eq_of_getLsbD_eq
  intro i within
  by_cases high : p.r ≤ i
  · have here := congrArg (BitVec.getLsbD · i) upper
    simpa only [BitVec.getLsbD_and, getLsbD_upperMask, within, high, decide_true,
      Bool.and_true] using here
  · have here := congrArg (BitVec.getLsbD · i) low
    simpa [Nat.lt_of_not_le high] using here

/-- The lower bits of the first word, on which nothing depends, the upper bits of the word before
output `k`, and the words of that output and the `n - 2` outputs after it. -/
def spread (p : Params) (k : Nat) (first : Vector (BitVec p.w) p.n) :
    (BitVec p.r × BitVec (p.w - p.r)) × (Fin (p.n - 1) → BitVec p.w) :=
  let bits := visible ((recurrence p).sequence first) (p.n - 1 + k)
  (((firstWord first).extractLsb' 0 p.r, bits.1), bits.2)

theorem spread_injective (reversible : p.Reversible) (k : Nat) :
    Function.Injective (spread p k) := by
  intro first first' same
  have obeys := (recurrence p).obeys_sequence first
  have obeys' := (recurrence p).obeys_sequence first'
  have low := congrArg (fun parts => parts.1.1) same
  have bits : visible ((recurrence p).sequence first) (0 + (p.n - 1 + k)) =
      visible ((recurrence p).sequence first') (0 + (p.n - 1 + k)) := by
    rw [Nat.zero_add]
    exact Prod.ext (congrArg (fun parts => parts.1.2) same) (congrArg (fun parts => parts.2) same)
  obtain ⟨upper, others⟩ :=
    visible_eq_iff.mp (visible_of_add obeys obeys' reversible (p.n - 1 + k) bits)
  refine Vector.ext fun i within => ?_
  rcases Nat.eq_zero_or_pos i with rfl | positive
  · rw [(recurrence p).sequence_of_lt first within,
      (recurrence p).sequence_of_lt first' within] at upper
    exact eq_of_low_of_upper low upper
  · have term := others i within positive
    rwa [Nat.zero_add, (recurrence p).sequence_of_lt first within,
      (recurrence p).sequence_of_lt first' within] at term

/-- The bits that matter are spread evenly over the arrays. -/
theorem spread_bijective (reversible : p.Reversible) (k : Nat) :
    Function.Bijective (spread p k) := by
  refine (spread_injective reversible k).bijective_of_nat_card_le (le_of_eq ?_)
  have r_lt_w := p.r_lt_w
  obtain ⟨n, n_eq⟩ := Nat.exists_eq_add_one.mpr p.n_pos
  rw [card_vector, Nat.card_prod, Nat.card_prod, Nat.card_fun, Nat.card_fin]
  simp only [Nat.card_eq_fintype_card, card_bitVec]
  rw [← pow_add, Nat.add_sub_of_le r_lt_w.le, n_eq, Nat.add_sub_cancel, pow_succ, mul_comm]

/-- Whatever `n - 1` words and whatever number of calls: of the arrays an engine can start with,
exactly `2 ^ w` make it put out these words after that many calls. -/
theorem outputs_equidistributed {p : Params} (typedef : p ∈ typedefs) (k : Nat)
    (words : Fin (p.n - 1) → BitVec p.w) :
    Nat.card {first : Vector (BitVec p.w) p.n //
      ∀ j : Fin (p.n - 1), (Engine.fresh first).output (k + j) = some (words j)} = 2 ^ p.w := by
  have observable := observable_of_typedef typedef
  have n_pos := p.n_pos
  have r_lt_w := p.r_lt_w
  have onto : Function.Surjective (temper p) :=
    Finite.surjective_of_injective (temper_injective observable)
  choose plain tempered using fun j => onto (words j)
  have fiber (first : Vector (BitVec p.w) p.n) :
      (∀ j : Fin (p.n - 1), (Engine.fresh first).output (k + j) = some (words j)) ↔
        (spread p k first).2 = plain := by
    rw [funext_iff]
    refine forall_congr' fun j => ?_
    have place : p.n - 1 + k + 1 + j = p.n + (k + j) := by omega
    rw [output_fresh, Option.some_inj, ← tempered, (temper_injective observable).eq_iff]
    change _ ↔ (recurrence p).sequence first (p.n - 1 + k + 1 + j) = plain j
    rw [place]
  rw [Nat.card_congr (Equiv.subtypeEquivRight fiber),
    card_fiber (spread_bijective observable.toReversible k), Nat.card_prod]
  simp only [Nat.card_eq_fintype_card, card_bitVec]
  rw [← pow_add, Nat.add_sub_of_le r_lt_w.le]

/-- 623 times the same word, after a thousand calls. -/
theorem outputs_equidistributed_mt19937 :
    Nat.card {first : Vector (BitVec mt19937.w) mt19937.n //
      ∀ j : Fin 623, (Engine.fresh first).output (1000 + j) = some 7} = 2 ^ 32 :=
  outputs_equidistributed (by simp [typedefs]) 1000 fun _ => 7

end MersenneTwisterEngine
end BoostTest
