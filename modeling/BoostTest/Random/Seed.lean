import BoostTest.Random.Stream

/-!
# Seeding the engine

`seed(value)` fills the array from one word, `seed(first, last)` and `seed(seq)` take `n` words and
are to fix up an array whose bits that matter are all zero: from such an array only zeros would
follow.  The loop that looks for a nonzero word tests `i` instead of `j` and never runs, so the
first word is overwritten wherever its upper bits are zero.
-/

namespace BoostTest
namespace MersenneTwisterEngine

open Recurrence WordBits

variable {p : Params}

namespace Engine

/-- `x[j] = word`. -/
def setWord (x : Vector (BitVec p.w) p.n) (j : Nat) (word : BitVec p.w) :
    Option (Vector (BitVec p.w) p.n) :=
  if within : j < p.n then some (x.set j word) else none

/-- `mask` of `seed(value)`. -/
def mask (p : Params) : BitVec p.w := BitVec.allOnes p.w

/-- The body of the loop of `seed(value)`. -/
def seedWord (i : Nat) (x : Vector (BitVec p.w) p.n) : Option (Vector (BitVec p.w) p.n) := do
  let word ← x[i - 1]?
  setWord x i ((p.f * (word ^^^ (word >>> (p.w - 2))) + BitVec.ofNat p.w i) &&& mask p)

/-- `seed(value)`, whose loop leaves `i` at `n`. -/
def seedValue (engine : Engine p) (value : BitVec p.w) : Option (Engine p) := do
  let x ← setWord engine.x 0 (value &&& mask p)
  let x ← forLoop 1 p.n seedWord x
  some (fresh x)

/-- `default_seed`. -/
def defaultSeed (p : Params) : BitVec p.w := BitVec.ofNat p.w 5489

/-- `seed()`. -/
def seed (engine : Engine p) : Option (Engine p) := engine.seedValue (defaultSeed p)

/-- `for(j = ...; i < n; ++j) if(x[j] != 0) return;` from a word of the array on, with whether it
returns.  Outside the array there is no word to read. -/
def scan (i : Nat) : List (BitVec p.w) → Option Bool
  | [] => if i < p.n then none else some false
  | word :: later => if i < p.n then if word ≠ 0 then some true else scan i later else some false

/-- What `seed(first, last)` and `seed(seq)` do once the array is filled. -/
def fixUp (words : Vector (BitVec p.w) p.n) : Option (Engine p) := do
  let engine := fresh words
  let word ← engine.x[0]?
  if word &&& upperMask p = 0 then
    let returns ← scan engine.i (engine.x.toList.drop 1)
    if returns then some engine
    else
      let x ← setWord engine.x 0 (1#p.w <<< (p.w - 1))
      some { engine with x }
  else some engine

/-- `seed(first, last)`, from the words that `fill_array_int` puts into the array. -/
def seedRange (words : Vector (BitVec p.w) p.n) : Option (Engine p) := fixUp words

/-- `seed(seq)`, from the words that `seed_array_int` puts into the array. -/
def seedSeq (words : Vector (BitVec p.w) p.n) : Option (Engine p) := fixUp words

end Engine

/-- `x[0]`. -/
def firstWord (x : Vector (BitVec p.w) p.n) : BitVec p.w := x.get ⟨0, p.n_pos⟩

theorem getElem?_zero (x : Vector (BitVec p.w) p.n) : x[0]? = some (firstWord x) :=
  Vector.getElem?_eq_getElem p.n_pos

/-- All bits that an output can depend on are zero. -/
def Degenerate (x : Vector (BitVec p.w) p.n) : Prop :=
  firstWord x &&& upperMask p = 0 ∧ ∀ j (within : j < p.n), 1 ≤ j → x[j] = 0

instance (x : Vector (BitVec p.w) p.n) : Decidable (Degenerate x) :=
  inferInstanceAs (Decidable (_ ∧ _))

/-- The array with the top bit as its first word. -/
def repaired (x : Vector (BitVec p.w) p.n) : Vector (BitVec p.w) p.n :=
  x.set 0 (1#p.w <<< (p.w - 1)) p.n_pos

/-- The upper bits of the first word are zero, and another word is not. -/
def NonzeroOnlyLater (x : Vector (BitVec p.w) p.n) : Prop :=
  firstWord x &&& upperMask p = 0 ∧ ∃ j, ∃ within : j < p.n, 1 ≤ j ∧ x[j] ≠ 0

/-- Two arrays differ in a bit that an output can depend on. -/
def Distinct (x y : Vector (BitVec p.w) p.n) : Prop :=
  firstWord x &&& upperMask p ≠ firstWord y &&& upperMask p ∨
    ∃ j, ∃ within : j < p.n, 1 ≤ j ∧ x[j] ≠ y[j]

section FixUp

variable (words words' : Vector (BitVec p.w) p.n)

theorem fresh_inj : Engine.fresh words = Engine.fresh words' ↔ words = words' := by
  simp [Engine.fresh]

/-- The loop of the fix-up leaves at its first test. -/
theorem scan_n (later : List (BitVec p.w)) : Engine.scan p.n later = some false := by
  cases later <;> simp [Engine.scan]

theorem fixUp_eq : Engine.fixUp words =
    some (.fresh (if firstWord words &&& upperMask p = 0 then repaired words else words)) := by
  simp only [Engine.fixUp, Engine.fresh, getElem?_zero, scan_n, Option.bind_eq_bind,
    Option.bind_some]
  split
  case isTrue zero => simp [Engine.setWord, p.n_pos, repaired]
  case isFalse nonzero => rfl

theorem firstWord_repaired : firstWord (repaired words) = 1#p.w <<< (p.w - 1) :=
  Vector.getElem_set_self p.n_pos

theorem getElem_repaired {j : Nat} (within : j < p.n) (later : 1 ≤ j) :
    (repaired words)[j] = words[j] :=
  Vector.getElem_set_ne p.n_pos within (by omega)

/-- The word a repaired array begins with has an upper bit. -/
theorem firstWord_repaired_and : firstWord (repaired words) &&& upperMask p ≠ 0 := by
  have top : (upperMask p).msb = true := by
    have r_lt_w := p.r_lt_w
    simp [upperMask, BitVec.msb_eq_getLsbD_last]
    omega
  rw [firstWord_repaired, BitVec.and_comm]
  exact (and_topBit_ne_zero p.w_pos (upperMask p)).mpr top

variable {words words'}

theorem repaired_ne (zero : firstWord words &&& upperMask p = 0) : repaired words ≠ words := by
  intro same
  have upper := firstWord_repaired_and words
  rw [same] at upper
  exact upper zero

theorem degenerate_iff (zero : firstWord words &&& upperMask p = 0) :
    Degenerate words ↔ ¬ NonzeroOnlyLater words := by
  constructor
  · rintro ⟨_, zeros⟩ ⟨_, j, within, later, nonzero⟩
    exact nonzero (zeros j within later)
  · intro none
    refine ⟨zero, fun j within later => ?_⟩
    by_contra nonzero
    exact none ⟨zero, j, within, later, nonzero⟩

theorem overlooked_of_zero (zero : firstWord words &&& upperMask p = 0)
    (notDegenerate : ¬ Degenerate words) : NonzeroOnlyLater words :=
  not_not.mp (mt (degenerate_iff zero).mpr notDegenerate)

/-- The fix-up repairs degenerate arrays only, and leaves the others alone, exactly where it does
not overlook a nonzero word. -/
theorem fixUp_repairs_iff :
    Engine.fixUp words = some (.fresh (if Degenerate words then repaired words else words)) ↔
      ¬ NonzeroOnlyLater words := by
  rw [fixUp_eq, Option.some_inj, fresh_inj]
  by_cases zero : firstWord words &&& upperMask p = 0
  · rw [if_pos zero, ← degenerate_iff zero]
    by_cases degenerate : Degenerate words
    · simp [degenerate]
    · simp [degenerate, repaired_ne zero]
  · have notDegenerate : ¬ Degenerate words := fun degenerate => zero degenerate.1
    rw [if_neg zero, if_neg notDegenerate]
    exact iff_of_true rfl fun overlooked => zero overlooked.1

theorem Distinct.ne (distinct : Distinct words words') : words ≠ words' := by
  rintro rfl
  rcases distinct with upper | ⟨j, within, later, differ⟩
  · exact upper rfl
  · exact differ rfl

/-- Repairing arrays with no upper bits in their first words keeps them apart. -/
theorem Distinct.repaired_ne (distinct : Distinct words words')
    (zero : firstWord words &&& upperMask p = 0) (zero' : firstWord words' &&& upperMask p = 0) :
    repaired words ≠ repaired words' := by
  intro same
  rcases distinct with upper | ⟨j, within, later, differ⟩
  · exact upper (zero.trans zero'.symm)
  · apply differ
    rw [← getElem_repaired words within later, same, getElem_repaired words' within later]

theorem eq_repaired_iff (overlooked : NonzeroOnlyLater words)
    (nonzero : firstWord words' &&& upperMask p ≠ 0) :
    words' = repaired words ↔
      NonzeroOnlyLater words ∧ words' = repaired words ∨
        NonzeroOnlyLater words' ∧ words = repaired words' := by
  constructor
  · exact fun same => .inl ⟨overlooked, same⟩
  · rintro (⟨_, same⟩ | ⟨impossible, _⟩)
    · exact same
    · exact (nonzero impossible.1).elim

/-- Arrays that differ where it matters are made the same exactly if the overlooked words of one
stand behind the top bit in the other. -/
theorem fixUp_eq_iff (distinct : Distinct words words') (notDegenerate : ¬ Degenerate words)
    (notDegenerate' : ¬ Degenerate words') :
    Engine.fixUp words = Engine.fixUp words' ↔
      NonzeroOnlyLater words ∧ words' = repaired words ∨
        NonzeroOnlyLater words' ∧ words = repaired words' := by
  rw [fixUp_eq, fixUp_eq, Option.some_inj, fresh_inj]
  by_cases zero : firstWord words &&& upperMask p = 0 <;>
    by_cases zero' : firstWord words' &&& upperMask p = 0
  · rw [if_pos zero, if_pos zero']
    refine iff_of_false (distinct.repaired_ne zero zero') ?_
    rintro (⟨_, rfl⟩ | ⟨_, rfl⟩)
    · exact firstWord_repaired_and words zero'
    · exact firstWord_repaired_and words' zero
  · rw [if_pos zero, if_neg zero', eq_comm]
    exact eq_repaired_iff (overlooked_of_zero zero notDegenerate) zero'
  · rw [if_neg zero, if_pos zero', or_comm]
    exact eq_repaired_iff (overlooked_of_zero zero' notDegenerate') zero
  · rw [if_neg zero, if_neg zero']
    refine iff_of_false distinct.ne ?_
    rintro (⟨impossible, _⟩ | ⟨impossible, _⟩)
    · exact zero impossible.1
    · exact zero' impossible.1

end FixUp

/-- Seeding from words leaves the engine with these words, or with the top bit and zeros where no
bit that matters is set, exactly where the upper bits of the first word are not zero or no other
word is set; and it keeps apart what differs where it matters but for the arrays that this
confuses. -/
theorem seed_repairs_iff (words words' : Vector (BitVec p.w) p.n) :
    (∃ x, Engine.seedRange words = some (.fresh x) ∧ Engine.seedSeq words = some (.fresh x)) ∧
      (Engine.seedRange words =
          some (.fresh (if Degenerate words then repaired words else words)) ↔
        ¬ NonzeroOnlyLater words) ∧
      (Engine.seedSeq words =
          some (.fresh (if Degenerate words then repaired words else words)) ↔
        ¬ NonzeroOnlyLater words) ∧
      (Distinct words words' → ¬ Degenerate words → ¬ Degenerate words' →
        (Engine.seedRange words ≠ Engine.seedRange words' ∧
            Engine.seedSeq words ≠ Engine.seedSeq words' ↔
          ¬ (NonzeroOnlyLater words ∧ words' = repaired words ∨
            NonzeroOnlyLater words' ∧ words = repaired words'))) := by
  refine ⟨⟨_, fixUp_eq words, fixUp_eq words⟩, fixUp_repairs_iff, fixUp_repairs_iff, ?_⟩
  intro distinct notDegenerate notDegenerate'
  rw [← fixUp_eq_iff distinct notDegenerate notDegenerate']
  exact and_self_iff

/-- Words that are all one have no upper bit in the first, which is overwritten. -/
theorem seed_overwrites_ones :
    Engine.seedRange (Vector.replicate mt19937.n 1) ≠
      some (.fresh (if Degenerate (Vector.replicate mt19937.n (1 : BitVec mt19937.w)) then
        repaired (Vector.replicate mt19937.n 1) else Vector.replicate mt19937.n 1)) := by
  have one : firstWord (Vector.replicate mt19937.n (1 : BitVec mt19937.w)) = 1 :=
    Vector.getElem_replicate mt19937.n_pos
  have overlooked : NonzeroOnlyLater (Vector.replicate mt19937.n (1 : BitVec mt19937.w)) := by
    refine ⟨by rw [one]; decide, 1, by decide, Nat.le_refl 1, ?_⟩
    rw [Vector.getElem_replicate]
    decide
  exact fun repairs => fixUp_repairs_iff.mp repairs overlooked

section Degenerate

variable {X : Nat → BitVec p.w} {start : Nat} {x : Vector (BitVec p.w) p.n}

/-- Degeneration in terms of the sequence. -/
theorem degenerate_iff_terms (slid : @Slid _ (recurrence p) X start 0 x) :
    Degenerate x ↔ X start &&& upperMask p = 0 ∧ ∀ j < p.n, 1 ≤ j → X (start + j) = 0 := by
  have term (j : Nat) (within : j < p.n) : x[j] = X (start + j) := by
    have word := Slid.zero_iff.mp slid j within
    rw [Vector.getElem?_eq_getElem within] at word
    exact Option.some.inj word
  have first : firstWord x = X start := term 0 p.n_pos
  rw [Degenerate, first]
  exact and_congr_right fun _ => forall₂_congr fun j within => by rw [term j within]

/-- A degenerate stretch of the sequence comes from one before. -/
theorem degenerate_back (obeys : (recurrence p).Obeys X) (reversible : p.Reversible)
    (degenerate : X (start + 1) &&& upperMask p = 0 ∧
      ∀ j < p.n, 1 ≤ j → X (start + 1 + j) = 0) :
    X start &&& upperMask p = 0 ∧ ∀ j < p.n, 1 ≤ j → X (start + j) = 0 := by
  obtain ⟨upper, zeros⟩ := degenerate
  have two_le_m := reversible.two_le_m
  have m_lt_n := p.m_lt_n
  have zero (k : Nat) (above : start + 2 ≤ k) (below : k < start + 1 + p.n) : X k = 0 := by
    have term := zeros (k - (start + 1)) (by omega) (by omega)
    rwa [Nat.add_sub_of_le (by omega)] at term
  have ahead : X (start + p.m) = 0 := zero _ (by omega) (by omega)
  have mixed : X (start + p.n) = 0 := zero _ (by omega) (by omega)
  have pair_zero : pair X start = 0 := by
    rw [← unmix_xor obeys reversible.top, ahead, mixed, unmix_eq]
    simp [shiftUp]
  have high : X start &&& upperMask p = 0 := by
    rw [← join_and (upperMask p) (X start) (X (start + 1)), ← pair, pair_zero]
    exact BitVec.zero_and
  have low : X (start + 1) = 0 := by
    apply eq_of_and_eq
    · rw [upper]
      exact BitVec.zero_and.symm
    · rw [← join_and_not (upperMask p) (X start) (X (start + 1)), ← pair, pair_zero]
  refine ⟨high, fun j within later => ?_⟩
  rcases Nat.eq_or_lt_of_le later with rfl | further
  · exact low
  · exact zero (start + j) (by omega) (by omega)

end Degenerate

/-- An engine is in good order if it can be called any number of times and then, wherever it is to
`twist` next, has a bit set that matters. -/
def NeverDegenerates (engine : Engine p) : Prop :=
  ∀ calls, ∃ after, engine.discard calls = some after ∧ (after.i = p.n → ¬ Degenerate after.x)

/-- From an array that is not degenerate no degenerate one follows. -/
theorem neverDegenerates_fresh (reversible : p.Reversible) {first : Vector (BitVec p.w) p.n}
    (notDegenerate : ¬ Degenerate first) : NeverDegenerates (.fresh first) := by
  have obeys := (recurrence p).obeys_sequence first
  have slid := @Slid.sequence _ (recurrence p) first
  intro calls
  obtain ⟨after, ran, block, _, represents⟩ := exists_discard obeys slid calls
  refine ⟨after, ran, fun _ degenerate => notDegenerate ?_⟩
  rw [degenerate_iff_terms slid]
  rw [degenerate_iff_terms represents.slid] at degenerate
  generalize p.n * block = start at degenerate
  induction start with
  | zero => exact degenerate
  | succ start induction => exact induction (degenerate_back obeys reversible degenerate)

/-- The words that the fix-up leaves in the array are not degenerate. -/
theorem not_degenerate_of_fixUp (words : Vector (BitVec p.w) p.n) :
    ¬ Degenerate (if firstWord words &&& upperMask p = 0 then repaired words else words) := by
  split
  case isTrue => exact fun degenerate => firstWord_repaired_and words degenerate.1
  case isFalse nonzero => exact fun degenerate => nonzero degenerate.1

/-- The words before the one at `bound` follow each from the one before. -/
def SeededBelow (bound : Nat) (x : Vector (BitVec p.w) p.n) : Prop :=
  ∀ k (within : k < p.n), 1 ≤ k → k < bound →
    x[k] = p.f * (x[k - 1] ^^^ (x[k - 1] >>> (p.w - 2))) + BitVec.ofNat p.w k

/-- What `seed(value)` leaves in the array. -/
structure Seeded (value : BitVec p.w) (x : Vector (BitVec p.w) p.n) : Prop where
  first : firstWord x = value
  later : SeededBelow p.n x

theorem SeededBelow.seedWord {i : Nat} {x : Vector (BitVec p.w) p.n} (seeded : SeededBelow i x)
    (positive : 1 ≤ i) (within : i < p.n) :
    ∃ after, Engine.seedWord i x = some after ∧ firstWord after = firstWord x ∧
      SeededBelow (i + 1) after := by
  have previous : x[i - 1]? = some x[i - 1] := Vector.getElem?_eq_getElem (by omega)
  refine ⟨_, by rw [Engine.seedWord, previous]; exact dif_pos within,
    Vector.getElem_set_ne within p.n_pos (by omega), ?_⟩
  intro k inside later recent
  have before (word : BitVec p.w) : (x.set i word within)[k - 1] = x[k - 1] :=
    Vector.getElem_set_ne within (by omega) (by omega)
  rw [before]
  rcases Nat.lt_succ_iff_lt_or_eq.mp recent with earlier | rfl
  · rw [Vector.getElem_set_ne within inside (by omega)]
    exact seeded k inside later earlier
  · rw [Vector.getElem_set_self, Engine.mask, BitVec.and_allOnes]

/-- `seed(value)` computes each word from the one before. -/
theorem exists_seeded (engine : Engine p) (value : BitVec p.w) :
    ∃ x, engine.seedValue value = some (.fresh x) ∧ Seeded value x := by
  have starts : SeededBelow 1 (engine.x.set 0 (value &&& Engine.mask p) p.n_pos) :=
    fun k _ later below => by omega
  obtain ⟨x, ran, first, later⟩ := @forLoop_invariant _
    (fun i x => firstWord x = value ∧ SeededBelow i x) 1 p.n p.n_pos Engine.seedWord
    (by
      rintro i x positive within ⟨first, seeded⟩
      obtain ⟨after, wrote, kept, still⟩ := seeded.seedWord positive within
      exact ⟨after, wrote, kept.trans first, still⟩)
    (engine.x.set 0 (value &&& Engine.mask p) p.n_pos)
    ⟨(Vector.getElem_set_self p.n_pos).trans BitVec.and_allOnes, starts⟩
  refine ⟨x, ?_, first, later⟩
  have wrote : Engine.setWord engine.x 0 (value &&& Engine.mask p) = some _ := dif_pos p.n_pos
  rw [Engine.seedValue, wrote]
  exact congrArg (Option.bind · _) ran

/-- The third word that `seed(value)` computes is not zero if the second one is. -/
theorem not_degenerate_of_seeded (two_le_m : 2 ≤ p.m) {x : Vector (BitVec p.w) p.n}
    (seeded : SeededBelow p.n x) : ¬ Degenerate x := by
  rintro ⟨_, zeros⟩
  have m_lt_n := p.m_lt_n
  have second := zeros 1 (by omega) (Nat.le_refl 1)
  have third := seeded 2 (by omega) (by omega) (by omega)
  have two : BitVec.ofNat p.w 2 = 0 := by
    rw [zeros 2 (by omega) (by omega), second] at third
    simpa using third.symm
  have two_lt : 2 < 2 ^ p.w := by
    have wide : 2 ≤ p.w := Nat.lt_of_le_of_lt p.r_pos p.r_lt_w
    exact Nat.lt_of_lt_of_le (by decide : 2 < 2 ^ 2) (Nat.pow_le_pow_right (by decide) wide)
  have value := congrArg BitVec.toNat two
  rw [BitVec.toNat_ofNat, Nat.mod_eq_of_lt two_lt] at value
  cases value

/-- However an engine is seeded, it never comes to put out zeros only. -/
theorem seeded_neverDegenerates (p : Params) (two_le_m : 2 ≤ p.m) (top : p.a.msb = true) :
    (∀ (engine : Engine p) (value : BitVec p.w), ∃ seeded,
      engine.seedValue value = some seeded ∧ NeverDegenerates seeded) ∧
      (∀ words : Vector (BitVec p.w) p.n, ∃ seeded,
        Engine.seedRange words = some seeded ∧ NeverDegenerates seeded) ∧
      ∀ words : Vector (BitVec p.w) p.n, ∃ seeded,
        Engine.seedSeq words = some seeded ∧ NeverDegenerates seeded := by
  have reversible : p.Reversible := ⟨two_le_m, top⟩
  refine ⟨fun engine value => ?_, fun words => ?_, fun words => ?_⟩
  · obtain ⟨x, seeds, seeded⟩ := exists_seeded engine value
    exact ⟨_, seeds,
      neverDegenerates_fresh reversible (not_degenerate_of_seeded two_le_m seeded.later)⟩
  · exact ⟨_, fixUp_eq words,
      neverDegenerates_fresh reversible (not_degenerate_of_fixUp words)⟩
  · exact ⟨_, fixUp_eq words,
      neverDegenerates_fresh reversible (not_degenerate_of_fixUp words)⟩

/-- An `mt19937` seeded with `default_seed`. -/
theorem seeded_neverDegenerates_default :
    ∃ seeded : Engine mt19937,
      (Engine.fresh (Vector.replicate mt19937.n 0)).seedValue 5489 = some seeded ∧
        NeverDegenerates seeded := by
  obtain ⟨seeds, _⟩ :=
    seeded_neverDegenerates mt19937 reversible_mt19937.two_le_m reversible_mt19937.top
  exact seeds _ 5489

end MersenneTwisterEngine
end BoostTest
