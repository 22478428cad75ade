import BoostTest.Lib.ForLoop
import Mathlib.Data.BitVec

/-!
# The Mersenne Twister engine

`mersenne_twister_engine` for any template parameters, with words as bit vectors of the full width
of `UIntType`.  Array accesses are checked: a function yields `none` at an index out of bounds.
`twist` also records the indices it writes.
-/

namespace BoostTest
namespace MersenneTwisterEngine

/-- The template parameters.  The differences of them that the code takes do not wrap. -/
structure Params where
  w : Nat
  n : Nat
  m : Nat
  r : Nat
  a : BitVec w
  u : Nat
  d : BitVec w
  s : Nat
  b : BitVec w
  t : Nat
  c : BitVec w
  l : Nat
  f : BitVec w
  m_pos : 1 ≤ m
  m_lt_n : m < n
  r_pos : 1 ≤ r
  r_lt_w : r < w

theorem Params.n_pos (p : Params) : 0 < p.n := Nat.zero_lt_of_lt p.m_lt_n

theorem Params.w_pos (p : Params) : 0 < p.w := Nat.zero_lt_of_lt p.r_lt_w

/-- The typedef `mt11213b`. -/
def mt11213b : Params where
  w := 32
  n := 351
  m := 175
  r := 19
  a := 0xccab8ee7#32
  u := 11
  d := 0xffffffff#32
  s := 7
  b := 0x31b6ab00#32
  t := 15
  c := 0xffe50000#32
  l := 17
  f := 1812433253#32
  m_pos := by decide
  m_lt_n := by decide
  r_pos := by decide
  r_lt_w := by decide

/-- The typedef `mt19937`. -/
def mt19937 : Params where
  w := 32
  n := 624
  m := 397
  r := 31
  a := 0x9908b0df#32
  u := 11
  d := 0xffffffff#32
  s := 7
  b := 0x9d2c5680#32
  t := 15
  c := 0xefc60000#32
  l := 18
  f := 1812433253#32
  m_pos := by decide
  m_lt_n := by decide
  r_pos := by decide
  r_lt_w := by decide

/-- The typedef `mt19937_64`. -/
def mt19937x64 : Params where
  w := 64
  n := 312
  m := 156
  r := 31
  a := 0xb5026f5aa96619e9#64
  u := 29
  d := 0x5555555555555555#64
  s := 17
  b := 0x71d67fffeda60000#64
  t := 37
  c := 0xfff7eee000000000#64
  l := 43
  f := 6364136223846793005#64
  m_pos := by decide
  m_lt_n := by decide
  r_pos := by decide
  r_lt_w := by decide

/-- The state representation: the next output comes from `x[i]`, after a `twist` if `i` is `n`. -/
structure Engine (p : Params) where
  x : Vector (BitVec p.w) p.n
  i : Nat
  i_le_n : i ≤ p.n

variable (p : Params)

/-- `upper_mask`. -/
def upperMask : BitVec p.w := BitVec.allOnes p.w <<< p.r

/-- `lower_mask`. -/
def lowerMask : BitVec p.w := ~~~ upperMask p

/-- The word `twist` puts in place of `word`, whose successor is `after`, with the word `m` places
ahead. -/
def mix (word after ahead : BitVec p.w) : BitVec p.w :=
  let y := (word &&& upperMask p) ||| (after &&& lowerMask p)
  ahead ^^^ (y >>> 1) ^^^ ((after &&& 1) * p.a)

/-- The output for the word `z`. -/
def temper (z : BitVec p.w) : BitVec p.w :=
  let z := z ^^^ ((z >>> p.u) &&& p.d)
  let z := z ^^^ ((z <<< p.s) &&& p.b)
  let z := z ^^^ ((z <<< p.t) &&& p.c)
  z ^^^ (z >>> p.l)

/-- The array in the course of `twist`. -/
structure Twisting where
  x : Vector (BitVec p.w) p.n
  /-- The indices written so far, in order. -/
  written : List Nat

variable {p}

namespace Twisting

/-- `x[j] = x[ahead] ^ (y >> 1) ^ ((x[after]&1) * a)` with the `y` of `x[j]` and `x[after]`. -/
def update (twisting : Twisting p) (j after ahead : Nat) : Option (Twisting p) := do
  let word ← twisting.x[j]?
  let afterWord ← twisting.x[after]?
  let aheadWord ← twisting.x[ahead]?
  if within : j < p.n then
    some
      { x := twisting.x.set j (mix p word afterWord aheadWord) within
        written := twisting.written ++ [j] }
  else none

/-- The body of the first two loops of `twist`. -/
def updateFront (j : Nat) (twisting : Twisting p) : Option (Twisting p) :=
  twisting.update j (j + 1) (j + p.m)

/-- The body of the next two.  A negative difference wraps, and is out of bounds. -/
def updateBack (j : Nat) (twisting : Twisting p) : Option (Twisting p) :=
  if p.n - p.m ≤ j then twisting.update j (j + 1) (j - (p.n - p.m)) else none

end Twisting

/-- `unroll_factor`. -/
def unrollFactor : Nat := 6

/-- The four loops and the last step of `twist`. -/
def twistArray (x : Vector (BitVec p.w) p.n) : Option (Twisting p) := do
  let unrollExtra1 := (p.n - p.m) % unrollFactor
  let unrollExtra2 := (p.m - 1) % unrollFactor
  let twisting ← forLoop 0 (p.n - p.m - unrollExtra1) Twisting.updateFront { x, written := [] }
  let twisting ← forLoop (p.n - p.m - unrollExtra1) (p.n - p.m) Twisting.updateFront twisting
  let twisting ← forLoop (p.n - p.m) (p.n - 1 - unrollExtra2) Twisting.updateBack twisting
  let twisting ← forLoop (p.n - 1 - unrollExtra2) (p.n - 1) Twisting.updateBack twisting
  twisting.update (p.n - 1) 0 (p.m - 1)

namespace Engine

/-- An engine that has just been seeded or read, with its words in `x` and `i` at `n`. -/
def fresh (x : Vector (BitVec p.w) p.n) : Engine p where
  x
  i := p.n
  i_le_n := Nat.le_refl p.n

/-- `twist()`. -/
def twist (engine : Engine p) : Option (Engine p) :=
  (twistArray engine.x).map fun twisted => { x := twisted.x, i := 0, i_le_n := Nat.zero_le p.n }

/-- `if(i == n) twist();` -/
def refill (engine : Engine p) : Option (Engine p) :=
  if engine.i = p.n then engine.twist else some engine

/-- `operator()()`. -/
def next (engine : Engine p) : Option (BitVec p.w × Engine p) := do
  let engine ← engine.refill
  if within : engine.i < p.n then
    some (temper p engine.x[engine.i], { engine with i := engine.i + 1, i_le_n := within })
  else none

/-- `discard(z)`. -/
def discard (engine : Engine p) (z : Nat) : Option (Engine p) :=
  forLoop 0 z (fun _ engine => engine.next.map Prod.snd) engine

end Engine
end MersenneTwisterEngine
end BoostTest
