import Mathlib.Data.BitVec
import Mathlib.Data.Nat.Prime.Basic

/-!
# Words of linear generators

Generators that are linear over their bits combine words by masks, xor with shifts of themselves,
and one-bit steps of a shift register.  None of these loses anything: the halves of a word can be
read back, an xor with a shift is injective, and a register step is undone by the step the other
way as soon as the tap reaches the top bit.
-/

namespace BoostTest
namespace WordBits

variable {w : Nat}

/-- The word with the bits of `high` inside the mask and those of `low` outside. -/
def join (mask high low : BitVec w) : BitVec w := (high &&& mask) ||| (low &&& ~~~ mask)

theorem getLsbD_join (mask high low : BitVec w) (i : Nat) :
    (join mask high low).getLsbD i =
      if mask.getLsbD i then high.getLsbD i else low.getLsbD i := by
  by_cases within : i < w
  · simp only [join, BitVec.getLsbD_or, BitVec.getLsbD_and, BitVec.getLsbD_not, within]
    cases mask.getLsbD i <;> simp
  · have beyond := Nat.le_of_not_lt within
    simp [BitVec.getLsbD_of_ge _ i beyond]

@[simp]
theorem join_self (mask word : BitVec w) : join mask word word = word := by
  apply BitVec.eq_of_getLsbD_eq
  intro i _
  rw [getLsbD_join, ite_self]

/-- Only the bits inside the mask of the first word matter. -/
theorem join_congr {mask high other low : BitVec w} (same : high &&& mask = other &&& mask) :
    join mask high low = join mask other low := by
  rw [join, join, same]

theorem join_and (mask high low : BitVec w) : join mask high low &&& mask = high &&& mask := by
  apply BitVec.eq_of_getLsbD_eq
  intro i _
  rw [BitVec.getLsbD_and, BitVec.getLsbD_and, getLsbD_join]
  cases mask.getLsbD i <;> simp

theorem join_and_not (mask high low : BitVec w) :
    join mask high low &&& ~~~ mask = low &&& ~~~ mask := by
  apply BitVec.eq_of_getLsbD_eq
  intro i within
  rw [BitVec.getLsbD_and, BitVec.getLsbD_and, getLsbD_join, BitVec.getLsbD_not]
  cases mask.getLsbD i <;> simp

/-- Two words are equal as soon as they are inside the mask and outside. -/
theorem eq_of_and_eq {mask word other : BitVec w} (inside : word &&& mask = other &&& mask)
    (outside : word &&& ~~~ mask = other &&& ~~~ mask) : word = other := by
  have same : join mask word word = join mask other other := by
    rw [join, join, inside, outside]
  simpa using same

/-- A word is determined by its xor with a masked shift of itself to the right: its bits follow
one after the other, from the top. -/
theorem xor_ushiftRight_injective {amount : Nat} (positive : 0 < amount) (mask : BitVec w) :
    Function.Injective fun word : BitVec w => word ^^^ ((word >>> amount) &&& mask) := by
  intro word other same
  have bit (distance : Nat) : ∀ i, w ≤ i + distance → word.getLsbD i = other.getLsbD i := by
    induction distance with
    | zero =>
        intro i beyond
        rw [BitVec.getLsbD_of_ge _ i beyond, BitVec.getLsbD_of_ge _ i beyond]
    | succ distance induction =>
        intro i above
        have higher := induction (amount + i) (by omega)
        have here := congrArg (BitVec.getLsbD · i) same
        simp only [BitVec.getLsbD_xor, BitVec.getLsbD_and, BitVec.getLsbD_ushiftRight,
          higher] at here
        exact Bool.xor_left_inj.mp here
  exact BitVec.eq_of_getLsbD_eq fun i _ => bit w i (Nat.le_add_left w i)

/-- The same for a shift to the left, with the bits following from the bottom. -/
theorem xor_shiftLeft_injective {amount : Nat} (positive : 0 < amount) (mask : BitVec w) :
    Function.Injective fun word : BitVec w => word ^^^ ((word <<< amount) &&& mask) := by
  intro word other same
  have bit (i : Nat) : word.getLsbD i = other.getLsbD i := by
    induction i using Nat.strongRecOn with
    | ind i induction =>
        have here := congrArg (BitVec.getLsbD · i) same
        by_cases shifted : i < amount
        · simpa [shifted] using here
        · have lower := induction (i - amount) (by omega)
          simp only [BitVec.getLsbD_xor, BitVec.getLsbD_and, BitVec.getLsbD_shiftLeft,
            lower] at here
          exact Bool.xor_left_inj.mp here
  exact BitVec.eq_of_getLsbD_eq fun i _ => bit i

/-- Multiplying by an odd word loses nothing. -/
theorem mul_injective_of_odd {factor : BitVec w} (odd : factor.toNat % 2 = 1) :
    Function.Injective fun word : BitVec w => factor * word := by
  intro word other same
  have coprime : Nat.Coprime (2 ^ w) factor.toNat :=
    (Nat.coprime_two_left.mpr (Nat.odd_iff.mpr odd)).pow_left w
  have product := congrArg BitVec.toNat same
  simp only [BitVec.toNat_mul] at product
  have equal := Nat.ModEq.cancel_left_of_coprime coprime product
  exact BitVec.eq_of_toNat_eq (equal.eq_of_lt_of_lt word.isLt other.isLt)

/-- One step of a shift register to the right: the bit that drops out is fed back at the tap. -/
def shiftDown (tap word : BitVec w) : BitVec w :=
  (word >>> 1) ^^^ (if word.getLsbD 0 then tap else 0)

/-- One step the other way, which tells by the top bit whether a bit was fed back. -/
def shiftUp (tap word : BitVec w) : BitVec w :=
  if word.msb then ((word ^^^ tap) <<< 1) ||| 1 else word <<< 1

theorem and_topBit_ne_zero (w_pos : 0 < w) (word : BitVec w) :
    word &&& (1#w <<< (w - 1)) ≠ 0 ↔ word.msb = true := by
  rw [BitVec.msb_eq_getLsbD_last]
  change word &&& BitVec.twoPow w (w - 1) ≠ 0 ↔ _
  rw [BitVec.and_twoPow]
  have top : BitVec.twoPow w (w - 1) ≠ 0#w := by
    intro zero
    have bit := congrArg (BitVec.getLsbD · (w - 1)) zero
    simp only [BitVec.getLsbD_twoPow, BitVec.getLsbD_zero, decide_true, Bool.and_true,
      decide_eq_false_iff_not] at bit
    omega
  cases word.getLsbD (w - 1) <;> simp [top]

theorem msb_shiftDown {tap : BitVec w} (top : tap.msb = true) (word : BitVec w) :
    (shiftDown tap word).msb = word.getLsbD 0 := by
  have shifted : (word >>> 1).msb = false := by
    rw [BitVec.msb_eq_getLsbD_last, BitVec.getLsbD_ushiftRight]
    exact BitVec.getLsbD_of_ge _ _ (by omega)
  rw [shiftDown, BitVec.msb_xor, shifted, Bool.false_xor]
  split
  case isTrue odd => rw [top, odd]
  case isFalse even => simpa using even

theorem getLsbD_ushiftRight_shiftLeft_one (word : BitVec w) (i : Nat) :
    ((word >>> 1) <<< 1).getLsbD i = (decide (0 < i) && word.getLsbD i) := by
  rw [BitVec.getLsbD_shiftLeft, BitVec.getLsbD_ushiftRight]
  rcases Nat.eq_zero_or_pos i with rfl | positive
  · simp
  · by_cases within : i < w
    · rw [Nat.add_sub_cancel' positive]
      simp [within, positive, show ¬ i < 1 by omega]
    · simp [within, BitVec.getLsbD_of_ge word i (Nat.le_of_not_lt within)]

/-- A step of the register is undone by the step the other way. -/
theorem shiftUp_shiftDown {tap : BitVec w} (top : tap.msb = true) (word : BitVec w) :
    shiftUp tap (shiftDown tap word) = word := by
  rw [shiftUp, msb_shiftDown top]
  apply BitVec.eq_of_getLsbD_eq
  intro i within
  split
  case isTrue odd =>
    rw [shiftDown, if_pos odd, BitVec.xor_assoc, BitVec.xor_self, BitVec.xor_zero,
      BitVec.getLsbD_or, getLsbD_ushiftRight_shiftLeft_one, BitVec.ofNat_eq_ofNat,
      BitVec.getLsbD_one]
    rcases Nat.eq_zero_or_pos i with rfl | positive
    · simp [odd, within]
    · simp [positive, Nat.ne_of_gt positive]
  case isFalse even =>
    rw [shiftDown, if_neg even, BitVec.ofNat_eq_ofNat, BitVec.xor_zero,
      getLsbD_ushiftRight_shiftLeft_one]
    rcases Nat.eq_zero_or_pos i with rfl | positive
    · simpa using even
    · simp [positive]

/-- Joining words is linear. -/
theorem join_xor (mask high other low low' : BitVec w) :
    join mask (high ^^^ other) (low ^^^ low') = join mask high low ^^^ join mask other low' := by
  apply BitVec.eq_of_getLsbD_eq
  intro i _
  simp only [getLsbD_join, BitVec.getLsbD_xor]
  split <;> rfl

/-- A step of the register is linear. -/
theorem shiftDown_xor (tap word other : BitVec w) :
    shiftDown tap (word ^^^ other) = shiftDown tap word ^^^ shiftDown tap other := by
  simp only [shiftDown, BitVec.ushiftRight_xor_distrib, BitVec.getLsbD_xor]
  cases word.getLsbD 0 <;> cases other.getLsbD 0 <;>
    simp [BitVec.xor_assoc, BitVec.xor_comm tap]

theorem xor_and_distrib (word other mask : BitVec w) :
    (word ^^^ other) &&& mask = (word &&& mask) ^^^ (other &&& mask) := by
  apply BitVec.eq_of_getLsbD_eq
  intro i _
  simp only [BitVec.getLsbD_and, BitVec.getLsbD_xor]
  exact Bool.and_xor_distrib_right _ _ _

/-- An xor with a masked shift to the right is linear. -/
theorem xor_ushiftRight_xor (amount : Nat) (mask word other : BitVec w) :
    (word ^^^ other) ^^^ (((word ^^^ other) >>> amount) &&& mask) =
      (word ^^^ ((word >>> amount) &&& mask)) ^^^ (other ^^^ ((other >>> amount) &&& mask)) := by
  rw [BitVec.ushiftRight_xor_distrib, xor_and_distrib]
  ac_rfl

/-- The same for a shift to the left. -/
theorem xor_shiftLeft_xor (amount : Nat) (mask word other : BitVec w) :
    (word ^^^ other) ^^^ (((word ^^^ other) <<< amount) &&& mask) =
      (word ^^^ ((word <<< amount) &&& mask)) ^^^ (other ^^^ ((other <<< amount) &&& mask)) := by
  rw [BitVec.shiftLeft_xor_distrib, xor_and_distrib]
  ac_rfl

end WordBits
end BoostTest
