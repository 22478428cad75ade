import BoostTest.Lib.WordBits
import BoostTest.Random.Twist

/-!
# Rewinding the engine

`rewind` computes the words that `twist` has overwritten, from the last one backwards.  A term of
the recurrence is the term `m` places ahead combined with the bits of two earlier terms, so these
bits can be read off from the array, and from the words rewound already once they are needed.
-/

namespace BoostTest
namespace MersenneTwisterEngine

open Recurrence WordBits

/-- The `y` of `twist` from the word it was mixed into and the word `m` places ahead, given their
xor `y`. -/
def unmix (p : Params) (y : BitVec p.w) : BitVec p.w :=
  if y &&& (1#p.w <<< (p.w - 1)) ≠ 0 then ((y ^^^ p.a) <<< 1) ||| 1 else y <<< 1

/-- The array `rewind` writes to, in the course of its loop.  Its words need not be initialized. -/
structure Rewinding (p : Params) (len : Nat) where
  data : Vector (Option (BitVec p.w)) len
  /-- The distances from `last` of the words written so far, in order. -/
  written : List Nat
  y0 : BitVec p.w

variable {p : Params} {len : Nat}

namespace Rewinding

/-- `*(last - distance)`, for a word that `rewind` has written before. -/
def read (rewinding : Rewinding p len) (last distance : Nat) : Option (BitVec p.w) :=
  if distance ∈ rewinding.written then rewinding.data[last - distance]?.join else none

/-- `*(last - distance) = word`. -/
def write (rewinding : Rewinding p len) (last distance : Nat) (word : BitVec p.w) :
    Option (Rewinding p len) :=
  if within : distance ≤ last ∧ last < len then
    some
      { rewinding with
        data := rewinding.data.set (last - distance) (some word)
          (Nat.lt_of_le_of_lt (Nat.sub_le last distance) within.2)
        written := rewinding.written ++ [distance] }
  else none

theorem exists_write (rewinding : Rewinding p len) {last distance : Nat} (fits : distance ≤ last)
    (within : last < len) (word : BitVec p.w) :
    ∃ after, rewinding.write last distance word = some after ∧
      after.written = rewinding.written ++ [distance] ∧
        after.data[last - distance]? = some (some word) ∧
          ∀ k, k ≠ last - distance → after.data[k]? = rewinding.data[k]? := by
  have inside := Nat.lt_of_le_of_lt (Nat.sub_le last distance) within
  exact ⟨_, dif_pos ⟨fits, within⟩, rfl, Vector.getElem?_set_self inside,
    fun k different => Vector.getElem?_set_ne inside different.symm⟩

/-- `rewind_find(last, size, j)`. -/
def find (rewinding : Rewinding p len) (x : Vector (BitVec p.w) p.n) (last size j : Nat) :
    Option (BitVec p.w) :=
  let index := (j + p.n - size + p.n - 1) % p.n
  if index < p.n - size then x[index]? else rewinding.read last (p.n - 1 - index)

/-- The body of the loop of `rewind`. -/
def step (x : Vector (BitVec p.w) p.n) (last sz : Nat) (rewinding : Rewinding p len) :
    Option (Rewinding p len) := do
  let ahead ← rewinding.find x last sz (p.m - 1)
  let mixed ← rewinding.find x last sz (p.n - 1)
  let y1 := unmix p (ahead ^^^ mixed)
  let after ← rewinding.write last sz ((rewinding.y0 &&& upperMask p) ||| (y1 &&& lowerMask p))
  some { after with y0 := y1 }

end Rewinding

/-- `rewind(last, z)` for a pointer `last` into `data`. -/
def rewind (x : Vector (BitVec p.w) p.n) (data : Vector (Option (BitVec p.w)) len)
    (last z : Nat) : Option (Rewinding p len) := do
  let ahead ← x[p.m - 1]?
  let mixed ← x[p.n - 1]?
  forLoop 0 z (Rewinding.step x last) { data, written := [], y0 := unmix p (ahead ^^^ mixed) }

/-- What rewinding takes for granted of the parameters. -/
structure Params.Reversible (p : Params) : Prop where
  two_le_m : 2 ≤ p.m
  top : p.a.msb = true

theorem reversible_mt19937 : mt19937.Reversible := ⟨by decide, by decide⟩

section Words

theorem unmix_eq (y : BitVec p.w) : unmix p y = shiftUp p.a y := by
  have top := and_topBit_ne_zero p.w_pos y
  rw [unmix, shiftUp, if_congr top rfl rfl]

theorem getLsbD_upperMask_zero : (upperMask p).getLsbD 0 = false := by
  have r_ne := Nat.ne_of_gt p.r_pos
  simp [upperMask, r_ne]

/-- The word of `twist` that is mixed with the word `m` places ahead, for the term at `k`. -/
def pair (X : Nat → BitVec p.w) (k : Nat) : BitVec p.w := join (upperMask p) (X k) (X (k + 1))

theorem mix_eq_shiftDown (word after ahead : BitVec p.w) :
    mix p word after ahead = ahead ^^^ shiftDown p.a (join (upperMask p) word after) := by
  have parity : (join (upperMask p) word after).getLsbD 0 = decide (after.toNat % 2 = 1) := by
    rw [getLsbD_join, getLsbD_upperMask_zero]
    simp [BitVec.getLsbD, Nat.testBit_zero]
  rw [mix_eq, shiftDown, parity, BitVec.xor_assoc]
  simp [join, lowerMask]

variable {X : Nat → BitVec p.w}

/-- The recurrence read backwards. -/
theorem unmix_xor (obeys : (recurrence p).Obeys X) (top : p.a.msb = true) (k : Nat) :
    unmix p (X (k + p.m) ^^^ X (k + p.n)) = pair X k := by
  have term : X (k + p.n) = X (k + p.m) ^^^ shiftDown p.a (pair X k) := by
    rw [pair, ← mix_eq_shiftDown]
    exact obeys k
  rw [term, ← BitVec.xor_assoc, BitVec.xor_self, BitVec.zero_xor, unmix_eq, shiftUp_shiftDown top]

/-- Two neighbouring pairs have all bits of the term between them. -/
theorem join_pair (X : Nat → BitVec p.w) (k : Nat) :
    join (upperMask p) (pair X (k + 1)) (pair X k) = X (k + 1) := by
  apply BitVec.eq_of_getLsbD_eq
  intro i _
  rw [getLsbD_join, pair, pair, getLsbD_join, getLsbD_join]
  cases (upperMask p).getLsbD i <;> simp

end Words

/-- The invariant of the loop of `rewind` over an array that holds the terms from `start` on.  With
no term two places before a word, only the upper bits of the word are known. -/
structure Rewound (X : Nat → BitVec p.w) (start : Nat) (data : Vector (Option (BitVec p.w)) len)
    (last size : Nat) (rewinding : Rewinding p len) : Prop where
  inOrder : rewinding.written = List.range size
  frame : ∀ k, k + size ≤ last ∨ last < k → rewinding.data[k]? = data[k]?
  words : ∀ distance < size, ∃ word, rewinding.data[last - distance]? = some (some word) ∧
    word &&& upperMask p = X (start - 1 - distance) &&& upperMask p ∧
      (distance + 2 ≤ start → word = X (start - 1 - distance))
  ready : size < start → rewinding.y0 = pair X (start - 1 - size)

namespace Rewound

variable {X : Nat → BitVec p.w} {start last size : Nat} {x : Vector (BitVec p.w) p.n}
  {data : Vector (Option (BitVec p.w)) len} {rewinding : Rewinding p len}

/-- `rewind_find` reads the array as long as it can, and then the words rewound already. -/
theorem find (rewound : Rewound X start data last size rewinding)
    (slid : @Slid _ (recurrence p) X start 0 x) (enough : p.n ≤ start) (size_lt : size < p.n)
    {j k : Nat} (j_pos : 1 ≤ j) (j_lt : j < p.n) (place : k + size + 1 = start + j) :
    rewinding.find x last size j = some (X k) := by
  by_cases inArray : size < j
  · have twice : j + p.n - size + p.n - 1 = j - 1 - size + p.n * 2 := by omega
    have index : (j + p.n - size + p.n - 1) % p.n = j - 1 - size := by
      rw [twice, Nat.add_mul_mod_self_left]
      exact Nat.mod_eq_of_lt (by omega)
    simp only [Rewinding.find, index]
    rw [if_pos (by omega)]
    exact pendingWord slid (Nat.zero_le _) (by omega) (by omega)
  · have once : j + p.n - size + p.n - 1 = p.n + j - 1 - size + p.n := by omega
    have index : (j + p.n - size + p.n - 1) % p.n = p.n + j - 1 - size := by
      rw [once, Nat.add_mod_right]
      exact Nat.mod_eq_of_lt (by omega)
    have slot : p.n - 1 - (p.n + j - 1 - size) = size - j := by omega
    have term : start - 1 - (size - j) = k := by omega
    obtain ⟨word, stored, _, full⟩ := rewound.words (size - j) (by omega)
    have isWritten : size - j ∈ rewinding.written := by
      rw [rewound.inOrder]
      exact List.mem_range.mpr (by omega)
    simp only [Rewinding.find, index]
    rw [if_neg (by omega), slot, Rewinding.read, if_pos isWritten, stored, full (by omega), term]
    rfl

/-- One round of the loop rewinds one word. -/
theorem step (rewound : Rewound X start data last size rewinding)
    (obeys : (recurrence p).Obeys X) (reversible : p.Reversible)
    (slid : @Slid _ (recurrence p) X start 0 x) (enough : p.n ≤ start) (size_lt : size < p.n)
    (fits : size ≤ last) (within : last < len) :
    ∃ after, Rewinding.step x last size rewinding = some after ∧
      Rewound X start data last (size + 1) after := by
  have two_le_m := reversible.two_le_m
  have m_lt_n := p.m_lt_n
  have ahead : rewinding.find x last size (p.m - 1) = some (X (start + p.m - 2 - size)) :=
    rewound.find slid enough size_lt (by omega) (by omega) (by omega)
  have mixed : rewinding.find x last size (p.n - 1) = some (X (start + p.n - 2 - size)) :=
    rewound.find slid enough size_lt (by omega) (by omega) (by omega)
  let y1 := unmix p (X (start + p.m - 2 - size) ^^^ X (start + p.n - 2 - size))
  have next : size + 1 < start → y1 = pair X (start - 1 - (size + 1)) := by
    intro earlier
    have aheadPlace : start - 1 - (size + 1) + p.m = start + p.m - 2 - size := by omega
    have mixedPlace : start - 1 - (size + 1) + p.n = start + p.n - 2 - size := by omega
    rw [← unmix_xor obeys reversible.top, aheadPlace, mixedPlace]
  have current := rewound.ready (by omega)
  obtain ⟨after, wrote, written, stored, others⟩ :=
    rewinding.exists_write fits within (join (upperMask p) rewinding.y0 y1)
  refine ⟨{ after with y0 := y1 }, ?_, ?_, ?_, ?_, next⟩
  · simp only [Rewinding.step, ahead, mixed, Option.bind_eq_bind, Option.bind_some]
    exact congrArg (Option.bind · _) wrote
  · rw [written, rewound.inOrder, List.range_succ]
  · intro k outside
    rw [others k (by omega)]
    exact rewound.frame k (by omega)
  · intro distance recent
    rcases Nat.lt_succ_iff_lt_or_eq.mp recent with earlier | rfl
    · rw [others (last - distance) (by omega)]
      exact rewound.words distance earlier
    · refine ⟨_, stored, ?_, fun earlier => ?_⟩
      · rw [join_and, current, pair, join_and]
      · have before : start - 1 - distance = start - 1 - (distance + 1) + 1 := by omega
        rw [current, next (by omega), before]
        exact join_pair X _

end Rewound

variable {X : Nat → BitVec p.w} {start : Nat} {x : Vector (BitVec p.w) p.n}

/-- Rewinding an array that holds the terms from `start` on gives the terms before it. -/
theorem exists_rewind (obeys : (recurrence p).Obeys X) (reversible : p.Reversible)
    (slid : @Slid _ (recurrence p) X start 0 x)
    (data : Vector (Option (BitVec p.w)) len) (last z : Nat) (enough : 0 < z → p.n ≤ start)
    (z_le : z ≤ p.n) (fits : z ≤ last + 1) (within : last < len) :
    ∃ rewound, rewind x data last z = some rewound ∧ Rewound X start data last z rewound := by
  have m_pos := p.m_pos
  have m_lt_n := p.m_lt_n
  have ahead : x[p.m - 1]? = some (X (start + (p.m - 1))) :=
    pendingWord slid (Nat.zero_le _) (by omega) rfl
  have mixed : x[p.n - 1]? = some (X (start + (p.n - 1))) :=
    pendingWord slid (Nat.zero_le _) (by omega) rfl
  have starts : Rewound X start data last 0
      { data, written := [], y0 := unmix p (X (start + (p.m - 1)) ^^^ X (start + (p.n - 1))) } := by
    refine ⟨rfl, fun _ _ => rfl, nofun, fun _ => ?_⟩
    have aheadPlace : start - 1 - 0 + p.m = start + (p.m - 1) := by omega
    have mixedPlace : start - 1 - 0 + p.n = start + (p.n - 1) := by omega
    rw [← unmix_xor obeys reversible.top, aheadPlace, mixedPlace]
  obtain ⟨rewound, ran, holds⟩ := forLoop_invariant (Rewound X start data last) (Nat.zero_le z)
    (fun size rewinding _ below rewound =>
      rewound.step obeys reversible slid (enough (by omega)) (by omega) (by omega) within) starts
  refine ⟨rewound, ?_, holds⟩
  rw [rewind, ahead, mixed]
  exact ran

/-- `rewind` undoes `twist`: run on the array that `twist` makes of `A`, it writes the words of `A`
from the last one backwards, each once, and reads only words of the array and words it has written.
Of the first word of `A`, which `twist` does not use in full, it restores the upper bits. -/
theorem rewind_twist (p : Params) (two_le_m : 2 ≤ p.m) (top : p.a.msb = true)
    (A : Vector (BitVec p.w) p.n) (data : Vector (Option (BitVec p.w)) len) {last z : Nat}
    (z_le : z ≤ p.n) (fits : z ≤ last + 1) (within : last < len) :
    ∃ twisted rewound, twistArray A = some twisted ∧
      rewind twisted.x data last z = some rewound ∧ rewound.written = List.range z ∧
        (∀ k, k + z ≤ last ∨ last < k → rewound.data[k]? = data[k]?) ∧
          ∀ s (below : s < z), ∃ word, rewound.data[last - s]? = some (some word) ∧
            word &&& upperMask p = A[p.n - 1 - s] &&& upperMask p ∧
              (s ≠ p.n - 1 → word = A[p.n - 1 - s]) := by
  have obeys := (recurrence p).obeys_sequence A
  obtain ⟨twisted, ran, progress⟩ :=
    exists_twistArray obeys (@Slid.sequence _ (recurrence p) A)
  have slid : @Slid _ (recurrence p) ((recurrence p).sequence A) p.n 0 twisted.x := by
    have moved := progress.slid.finish
    rwa [Nat.zero_add] at moved
  obtain ⟨rewound, rewinds, holds⟩ :=
    exists_rewind obeys ⟨two_le_m, top⟩ slid data last z (fun _ => Nat.le_refl p.n) z_le fits
      within
  refine ⟨twisted, rewound, ran, rewinds, holds.inOrder, holds.frame, fun s below => ?_⟩
  obtain ⟨word, stored, upper, full⟩ := holds.words s below
  have inside : p.n - 1 - s < p.n := by omega
  have term : (recurrence p).sequence A (p.n - 1 - s) = A[p.n - 1 - s] :=
    (recurrence p).sequence_of_lt A inside
  rw [term] at upper full
  exact ⟨word, stored, upper, fun notFirst => full (by omega)⟩

/-- The block before one of an `mt19937` is rewound as a whole. -/
theorem rewind_twist_whole_block :
    ∃ twisted rewound, twistArray (Vector.replicate mt19937.n 1) = some twisted ∧
      rewind twisted.x (Vector.replicate 624 none) 623 624 = some rewound ∧
        rewound.written = List.range 624 ∧ rewound.data[623]? = some (some 1) := by
  obtain ⟨twisted, rewound, ran, rewinds, written, _, words⟩ :=
    rewind_twist mt19937 reversible_mt19937.two_le_m reversible_mt19937.top
      (Vector.replicate mt19937.n 1) (Vector.replicate 624 none) (Nat.le_refl mt19937.n)
      (Nat.le_refl (623 + 1)) (Nat.lt_succ_self 623)
  obtain ⟨word, stored, _, full⟩ := words 0 (Nat.succ_pos 623)
  rw [full (Nat.zero_ne_add_one 622), Vector.getElem_replicate] at stored
  exact ⟨twisted, rewound, ran, rewinds, written, stored⟩

end MersenneTwisterEngine
end BoostTest
