import BoostTest.Random.Recovery

/-!
# The engine is linear

Every step of the engine combines bits by exclusive or, with the bits to combine chosen by the
parameters alone.  So the outputs of an engine are linear in the array it starts with, and what two
engines differ by is put out by the engine that starts with what their arrays differ by.
-/

namespace BoostTest
namespace MersenneTwisterEngine

open Recurrence WordBits

variable {p : Params}

theorem mix_xor (word word' after after' ahead ahead' : BitVec p.w) :
    mix p (word ^^^ word') (after ^^^ after') (ahead ^^^ ahead') =
      mix p word after ahead ^^^ mix p word' after' ahead' := by
  simp only [mix_eq_shiftDown, join_xor, shiftDown_xor]
  ac_rfl

theorem temper_xor (word word' : BitVec p.w) :
    temper p (word ^^^ word') = temper p word ^^^ temper p word' := by
  have last (z z' : BitVec p.w) :
      (z ^^^ z') ^^^ ((z ^^^ z') >>> p.l) = (z ^^^ (z >>> p.l)) ^^^ (z' ^^^ (z' >>> p.l)) := by
    simpa using xor_ushiftRight_xor p.l (BitVec.allOnes p.w) z z'
  simp only [temper, xor_ushiftRight_xor, xor_shiftLeft_xor, last]

/-- The array of the bits in which two arrays differ. -/
def difference (first first' : Vector (BitVec p.w) p.n) : Vector (BitVec p.w) p.n :=
  Vector.zipWith (· ^^^ ·) first first'

theorem sequence_difference (first first' : Vector (BitVec p.w) p.n) (k : Nat) :
    (recurrence p).sequence (difference first first') k =
      (recurrence p).sequence first k ^^^ (recurrence p).sequence first' k :=
  (recurrence p).sequence_zipWith first mix_xor first' k

/-- What two engines put out differs by what the engine puts out that starts with the bits in which
their arrays differ. -/
theorem outputs_linear (p : Params) (first first' : Vector (BitVec p.w) p.n) (k : Nat) :
    ∃ word word', (Engine.fresh first).output k = some word ∧
      (Engine.fresh first').output k = some word' ∧
        (Engine.fresh (difference first first')).output k = some (word ^^^ word') := by
  refine ⟨_, _, output_fresh first k, output_fresh first' k, ?_⟩
  rw [output_fresh, sequence_difference, temper_xor]

end MersenneTwisterEngine
end BoostTest
