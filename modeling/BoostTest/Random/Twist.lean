import BoostTest.Lib.Recurrence
import BoostTest.Random.Engine

/-!
# The engine computes the Mersenne Twister recurrence

`twist` replaces the words in the array by the next `n` terms of a recurrence, in place and without
a modulo: the first two loops read a word that is still to be replaced, the others one that is
already replaced.  So the outputs are the tempered terms of the recurrence, from the `n`-th on.
-/

namespace BoostTest
namespace MersenneTwisterEngine

open Recurrence

/-- The Mersenne Twister recurrence. -/
abbrev recurrence (p : Params) : Recurrence (BitVec p.w) where
  order := p.n
  lag := p.m
  next := mix p
  lag_pos := p.m_pos
  lag_lt_order := p.m_lt_n

variable {p : Params}

/-- Multiplying the lowest bit by `a` selects `a` for the odd words. -/
theorem mix_eq (word after ahead : BitVec p.w) :
    mix p word after ahead =
      ahead ^^^ (((word &&& upperMask p) ||| (after &&& lowerMask p)) >>> 1) ^^^
        (if after.toNat % 2 = 1 then p.a else 0) := by
  have one : (1 : BitVec p.w).toNat = 1 := BitVec.toNat_one p.w_pos
  have bit : after &&& 1 = if after.toNat % 2 = 1 then 1 else 0 := by
    apply BitVec.eq_of_toNat_eq
    rw [BitVec.toNat_and, one, Nat.and_one_is_mod]
    rcases Nat.mod_two_eq_zero_or_one after.toNat with even | odd
    · rw [even]
      rfl
    · rw [odd, if_pos rfl, one]
  rw [mix, bit]
  split <;> simp

section Words

variable {X : Nat → BitVec p.w} {start done i k : Nat} {x : Vector (BitVec p.w) p.n}

/-- A word of the array that is still to be replaced. -/
theorem pendingWord (slid : @Slid _ (recurrence p) X start done x) (pending : done ≤ i)
    (within : i < p.n) (place : start + i = k) : x[i]? = some (X k) := by
  rw [← place]
  exact slid.getElem?_of_le pending within

/-- A word of the array that is already replaced. -/
theorem replacedWord (slid : @Slid _ (recurrence p) X start done x) (replaced : i < done)
    (within : i < p.n) (place : start + i + p.n = k) : x[i]? = some (X k) := by
  rw [← place]
  exact slid.getElem?_of_lt replaced within

end Words

/-- The invariant of the loops of `twist`: the words below `j` are replaced, each in its turn. -/
structure Progress (X : Nat → BitVec p.w) (start j : Nat) (twisting : Twisting p) : Prop where
  slid : @Slid _ (recurrence p) X start j twisting.x
  inOrder : twisting.written = List.range j

namespace Progress

variable {X : Nat → BitVec p.w} {start j : Nat} {twisting : Twisting p}

/-- One step of `twist` that reads the two words the recurrence asks for. -/
theorem update (progress : Progress X start j twisting) (obeys : (recurrence p).Obeys X)
    (within : j < p.n) {after ahead : Nat}
    (afterWord : twisting.x[after]? = some (X (start + j + 1)))
    (aheadWord : twisting.x[ahead]? = some (X (start + j + p.m))) :
    ∃ next, twisting.update j after ahead = some next ∧ Progress X start (j + 1) next := by
  have word := progress.slid.getElem?_of_le (Nat.le_refl j) within
  refine ⟨_, by rw [Twisting.update, word, afterWord, aheadWord]; exact dif_pos within, ?_, ?_⟩
  · exact progress.slid.set obeys within
  · rw [progress.inOrder, List.range_succ]

theorem updateFront (progress : Progress X start j twisting) (obeys : (recurrence p).Obeys X)
    (below : j < p.n - p.m) :
    ∃ next, twisting.updateFront j = some next ∧ Progress X start (j + 1) next := by
  have m_pos := p.m_pos
  have afterWord : twisting.x[j + 1]? = some (X (start + j + 1)) :=
    pendingWord progress.slid (by omega) (by omega) (by omega)
  have aheadWord : twisting.x[j + p.m]? = some (X (start + j + p.m)) :=
    pendingWord progress.slid (by omega) (by omega) (by omega)
  exact progress.update obeys (by omega) afterWord aheadWord

theorem updateBack (progress : Progress X start j twisting) (obeys : (recurrence p).Obeys X)
    (above : p.n - p.m ≤ j) (below : j < p.n - 1) :
    ∃ next, twisting.updateBack j = some next ∧ Progress X start (j + 1) next := by
  have m_lt_n := p.m_lt_n
  have m_pos := p.m_pos
  have afterWord : twisting.x[j + 1]? = some (X (start + j + 1)) :=
    pendingWord progress.slid (by omega) (by omega) (by omega)
  have aheadWord : twisting.x[j - (p.n - p.m)]? = some (X (start + j + p.m)) :=
    replacedWord progress.slid (by omega) (by omega) (by omega)
  rw [Twisting.updateBack, if_pos above]
  exact progress.update obeys (by omega) afterWord aheadWord

/-- The last step wraps around to the first word, which is already replaced. -/
theorem updateLast (progress : Progress X start (p.n - 1) twisting)
    (obeys : (recurrence p).Obeys X) :
    ∃ next, twisting.update (p.n - 1) 0 (p.m - 1) = some next ∧ Progress X start p.n next := by
  have m_lt_n := p.m_lt_n
  have m_pos := p.m_pos
  have afterWord : twisting.x[0]? = some (X (start + (p.n - 1) + 1)) :=
    replacedWord progress.slid (by omega) p.n_pos (by omega)
  have aheadWord : twisting.x[p.m - 1]? = some (X (start + (p.n - 1) + p.m)) :=
    replacedWord progress.slid (by omega) (by omega) (by omega)
  obtain ⟨next, ran, still⟩ := progress.update obeys (by omega) afterWord aheadWord
  rw [Nat.sub_add_cancel (by omega)] at still
  exact ⟨next, ran, still⟩

end Progress

/-- `twist` replaces each word once, in order, within bounds, by the term `n` places later. -/
theorem exists_twistArray {X : Nat → BitVec p.w} (obeys : (recurrence p).Obeys X) {start : Nat}
    {x : Vector (BitVec p.w) p.n} (slid : @Slid _ (recurrence p) X start 0 x) :
    ∃ twisted, twistArray x = some twisted ∧ Progress X start p.n twisted := by
  have m_lt_n := p.m_lt_n
  have m_pos := p.m_pos
  have extra1 := Nat.mod_le (p.n - p.m) unrollFactor
  have extra2 := Nat.mod_le (p.m - 1) unrollFactor
  have front (j : Nat) (twisting : Twisting p) (below : j < p.n - p.m)
      (progress : Progress X start j twisting) := progress.updateFront obeys below
  have back (j : Nat) (twisting : Twisting p) (above : p.n - p.m ≤ j) (below : j < p.n - 1)
      (progress : Progress X start j twisting) := progress.updateBack obeys above below
  have starts : Progress X start 0 { x, written := [] } := ⟨slid, rfl⟩
  obtain ⟨first, ranFirst, progress⟩ := forLoop_invariant (Progress X start)
    (Nat.zero_le (p.n - p.m - (p.n - p.m) % unrollFactor))
    (fun j twisting _ below => front j twisting (by omega)) starts
  obtain ⟨second, ranSecond, progress⟩ := forLoop_invariant (Progress X start)
    (Nat.sub_le (p.n - p.m) ((p.n - p.m) % unrollFactor))
    (fun j twisting _ below => front j twisting below) progress
  obtain ⟨third, ranThird, progress⟩ := forLoop_invariant (Progress X start)
    (show p.n - p.m ≤ p.n - 1 - (p.m - 1) % unrollFactor by omega)
    (fun j twisting above below => back j twisting above (by omega)) progress
  obtain ⟨fourth, ranFourth, progress⟩ := forLoop_invariant (Progress X start)
    (Nat.sub_le (p.n - 1) ((p.m - 1) % unrollFactor))
    (fun j twisting above below => back j twisting (by omega) below) progress
  obtain ⟨twisted, ranLast, progress⟩ := progress.updateLast obeys
  refine ⟨twisted, ?_, progress⟩
  simp only [twistArray, ranFirst, ranSecond, ranThird, ranFourth, ranLast, Option.bind_eq_bind,
    Option.bind_some]

/-- The engine is about to put out term `time` of the sequence: the array holds the terms from
`start` on. -/
structure Located (X : Nat → BitVec p.w) (time : Nat) (engine : Engine p) (start : Nat) :
    Prop where
  slid : @Slid _ (recurrence p) X start 0 engine.x
  position : start + engine.i = time

namespace Located

variable {X : Nat → BitVec p.w} {time start : Nat} {engine : Engine p}

/-- Reading the next word where no `twist` is needed. -/
theorem read (located : Located X time engine start) (within : engine.i < p.n) :
    engine.x[engine.i] = X time := by
  have word := located.slid engine.i within
  rwa [if_neg (Nat.not_lt_zero _), Nat.add_zero, located.position] at word

/-- When the words are used up, `twist` makes the next ones. -/
theorem refill (located : Located X time engine start) (obeys : (recurrence p).Obeys X) :
    ∃ ready later, engine.refill = some ready ∧ ready.i < p.n ∧ Located X time ready later ∧
      (engine.i < p.n ∧ later = start ∨ engine.i = p.n ∧ later = start + p.n) := by
  by_cases used : engine.i = p.n
  · obtain ⟨twisted, ran, progress⟩ := exists_twistArray obeys located.slid
    have position := located.position
    rw [used] at position
    refine ⟨_, start + p.n, by rw [Engine.refill, if_pos used, Engine.twist, ran]; rfl,
      p.n_pos, ⟨progress.slid.finish, ?_⟩, .inr ⟨used, rfl⟩⟩
    rw [Nat.add_zero, position]
  · have within := Nat.lt_of_le_of_ne engine.i_le_n used
    exact ⟨engine, start, if_neg used, within, located, .inl ⟨within, rfl⟩⟩

/-- A call yields the tempered next term of the recurrence. -/
theorem next (located : Located X time engine start) (obeys : (recurrence p).Obeys X) :
    ∃ after later, engine.next = some (temper p (X time), after) ∧ 1 ≤ after.i ∧
      Located X (time + 1) after later ∧
        (engine.i < p.n ∧ later = start ∨ engine.i = p.n ∧ later = start + p.n) := by
  obtain ⟨ready, later, refilled, within, still, moved⟩ := located.refill obeys
  have position := still.position
  refine ⟨{ ready with i := ready.i + 1, i_le_n := within }, later, ?_, Nat.succ_pos _,
    ⟨still.slid, by simp only; omega⟩, moved⟩
  rw [Engine.next, refilled, ← still.read within]
  exact dif_pos within

end Located

/-- The state after `calls` calls: the array holds a block of the sequence, and `i` is where in it
the next output comes from. -/
structure Represents (X : Nat → BitVec p.w) (calls : Nat) (engine : Engine p) (block : Nat) :
    Prop where
  slid : @Slid _ (recurrence p) X (p.n * block) 0 engine.x
  position : p.n * block + engine.i = p.n + calls

namespace Represents

variable {X : Nat → BitVec p.w} {calls block : Nat} {engine : Engine p}

theorem fresh {x : Vector (BitVec p.w) p.n} (slid : @Slid _ (recurrence p) X 0 0 x) :
    Represents X 0 (.fresh x) 0 where
  slid := by
    rw [Nat.mul_zero]
    exact slid
  position := by simp [Engine.fresh]

theorem located (represents : Represents X calls engine block) :
    Located X (p.n + calls) engine (p.n * block) :=
  ⟨represents.slid, represents.position⟩

/-- A call yields the tempered next term of the recurrence, and keeps to the blocks. -/
theorem next (represents : Represents X calls engine block) (obeys : (recurrence p).Obeys X) :
    ∃ after later, engine.next = some (temper p (X (p.n + calls)), after) ∧ 1 ≤ after.i ∧
      Represents X (calls + 1) after later := by
  obtain ⟨after, later, called, started, ⟨slid, position⟩, ⟨_, rfl⟩ | ⟨_, rfl⟩⟩ :=
    represents.located.next obeys
  · exact ⟨after, block, called, started, slid, position⟩
  · rw [← Nat.mul_succ] at slid position
    exact ⟨after, block + 1, called, started, slid, position⟩

/-- After at least one call the number of calls determines the block and the position in it. -/
theorem locate (represents : Represents X (calls + 1) engine block) (started : 1 ≤ engine.i) :
    engine.i = calls % p.n + 1 ∧ block = (calls + p.n) / p.n := by
  have i_le_n := engine.i_le_n
  have position := represents.position
  obtain ⟨earlier, rfl⟩ : ∃ earlier, block = earlier + 1 := by
    refine Nat.exists_eq_add_one.mpr (Nat.pos_of_ne_zero ?_)
    rintro rfl
    omega
  have split : calls = p.n * earlier + (engine.i - 1) := by
    rw [Nat.mul_succ] at position
    omega
  have below : engine.i - 1 < p.n := by omega
  constructor
  · rw [split, Nat.mul_add_mod, Nat.mod_eq_of_lt below]
    omega
  · rw [Nat.add_div_right calls p.n_pos, split, Nat.mul_add_div p.n_pos, Nat.div_eq_of_lt below,
      Nat.add_zero]

end Represents

/-- An engine called any number of times. -/
theorem exists_discard {X : Nat → BitVec p.w} (obeys : (recurrence p).Obeys X)
    {x : Vector (BitVec p.w) p.n} (slid : @Slid _ (recurrence p) X 0 0 x) (calls : Nat) :
    ∃ engine, (Engine.fresh x).discard calls = some engine ∧
      ∃ block, 1 ≤ engine.i ∧ Represents X calls engine block := by
  refine forLoop_invariant (fun calls engine => ∃ block, 1 ≤ engine.i ∧
    Represents X calls engine block) (Nat.zero_le calls) ?_ ⟨0, p.n_pos, .fresh slid⟩
  rintro calls engine _ _ ⟨block, _, represents⟩
  obtain ⟨after, later, called, started, still⟩ := represents.next obeys
  exact ⟨after, by rw [called]; rfl, later, started, still⟩

/-- An engine whose array holds the words `first` puts out the terms of the recurrence that
continues them, each tempered by the four shifts with `u`, `d`, `s`, `b`, `t`, `c` and `l`.  It
keeps its array on the blocks of that sequence, and every `twist` writes each index once, in
order. -/
theorem computes_recurrence (p : Params) (first : Vector (BitVec p.w) p.n) :
    ∃ X : Nat → BitVec p.w,
      (∀ j, (within : j < p.n) → X j = first[j]) ∧
        (∀ k, ∃ y, y = (X k &&& (BitVec.allOnes p.w <<< p.r)) |||
            (X (k + 1) &&& ~~~(BitVec.allOnes p.w <<< p.r)) ∧
          X (k + p.n) =
            X (k + p.m) ^^^ (y >>> 1) ^^^ (if (X (k + 1)).toNat % 2 = 1 then p.a else 0)) ∧
          (∀ q, ∃ engine after z1 z2 z3, (Engine.fresh first).discard q = some engine ∧
            z1 = X (p.n + q) ^^^ ((X (p.n + q) >>> p.u) &&& p.d) ∧
            z2 = z1 ^^^ ((z1 <<< p.s) &&& p.b) ∧
            z3 = z2 ^^^ ((z2 <<< p.t) &&& p.c) ∧
            engine.next = some (z3 ^^^ (z3 >>> p.l), after)) ∧
            (∀ N, 1 ≤ N → ∃ engine, (Engine.fresh first).discard N = some engine ∧
              engine.i = (N - 1) % p.n + 1 ∧
                ∀ j, (within : j < p.n) →
                  engine.x[j] = X (p.n * ((N + p.n - 1) / p.n) + j)) ∧
              ∀ x : Vector (BitVec p.w) p.n, ∃ twisted, twistArray x = some twisted ∧
                twisted.written = List.range p.n := by
  have obeys := (recurrence p).obeys_sequence first
  have slid := @Slid.sequence _ (recurrence p) first
  refine ⟨(recurrence p).sequence first, ?_, ?_, ?_, ?_, ?_⟩
  · exact fun j within => (recurrence p).sequence_of_lt first within
  · exact fun k => ⟨_, rfl, (obeys k).trans (mix_eq _ _ _)⟩
  · intro q
    obtain ⟨engine, ran, block, _, represents⟩ := exists_discard obeys slid q
    obtain ⟨after, _, called, _, _⟩ := represents.next obeys
    exact ⟨engine, after, _, _, _, ran, rfl, rfl, rfl, called⟩
  · intro N called
    obtain ⟨calls, rfl⟩ := Nat.exists_eq_add_one.mpr called
    obtain ⟨engine, ran, block, started, represents⟩ := exists_discard obeys slid (calls + 1)
    obtain ⟨position, located⟩ := represents.locate started
    have before : calls + 1 + p.n - 1 = calls + p.n := by omega
    refine ⟨engine, ran, position, fun j within => ?_⟩
    rw [represents.slid j within, if_neg (Nat.not_lt_zero j), Nat.add_zero, located, before]
  · intro x
    obtain ⟨twisted, ran, progress⟩ :=
      exists_twistArray ((recurrence p).obeys_sequence x) (@Slid.sequence _ (recurrence p) x)
    exact ⟨twisted, ran, progress.inOrder⟩

end MersenneTwisterEngine
end BoostTest
