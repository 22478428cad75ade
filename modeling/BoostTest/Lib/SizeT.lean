import Mathlib.Data.BitVec
import Mathlib.Tactic.Common

/-!
# Unsigned machine counters

`std::size_t` is a bit vector of the platform's width, with the wrap-around of `++` and `--`.  The
two lemmas say when neither wraps.
-/

namespace BoostTest

/-- `std::size_t` on a platform with `width`-bit sizes. -/
abbrev SizeT (width : Nat) := BitVec width

namespace SizeT

variable {width : Nat}

private theorem toNat_one_of_pos (counter : SizeT width) (positive : 0 < counter.toNat) :
    (1 : SizeT width).toNat = 1 := by
  apply BitVec.toNat_one
  by_contra zero_width
  obtain rfl : width = 0 := by omega
  have := counter.isLt
  omega

/-- A counter below another one can be incremented without wrapping. -/
theorem toNat_increment {counter bound : SizeT width} (below : counter.toNat < bound.toNat) :
    (counter + 1).toNat = counter.toNat + 1 := by
  have one : (1 : SizeT width).toNat = 1 := toNat_one_of_pos bound (by omega)
  have fits := bound.isLt
  rw [BitVec.toNat_add_of_lt (by omega), one]

/-- A nonzero counter can be decremented without wrapping. -/
theorem toNat_decrement {counter : SizeT width} (positive : 0 < counter.toNat) :
    (counter - 1).toNat = counter.toNat - 1 := by
  have one : (1 : SizeT width).toNat = 1 := toNat_one_of_pos counter positive
  rw [BitVec.toNat_sub_of_le (by rw [BitVec.le_def]; omega), one]

theorem eq_zero_iff {counter : SizeT width} : counter = 0 ↔ counter.toNat = 0 := by
  rw [← BitVec.toNat_inj]
  simp

end SizeT
end BoostTest
