import BoostTest.Random.Stream

/-!
# Comparing engines

Two arrays may hold different parts of one sequence, so `operator==` compares the words both have
and rewinds the engine with fewer outputs since its last `twist` for the others.  An engine compares
equal exactly if the other array holds terms of its own sequence, at the place `i` says.
-/

namespace BoostTest
namespace MersenneTwisterEngine

open Recurrence

variable {p : Params}

/-- The test of two words for equality, which fails if one of them is not there. -/
def sameWord (word other : Option (BitVec p.w)) : Option Bool := do
  let word ← word
  let other ← other
  some (word == other)

theorem sameWord_decides (word : BitVec p.w) (x : Vector (BitVec p.w) p.n) {k : Nat}
    (within : k < p.n) :
    ∃ result, sameWord (some word) x[k]? = some result ∧ (result = true ↔ x[k]? = some word) := by
  rw [Vector.getElem?_eq_getElem within]
  refine ⟨word == x[k], rfl, ?_⟩
  rw [Option.some_inj, beq_iff_eq, eq_comm]

namespace Engine

/-- `equal_imp(other)`, which requires `i <= other.i`. -/
def equalImp (engine other : Engine p) : Option Bool := do
  let offset := other.i - engine.i
  let current ← forAll (p.n - offset) fun j => sameWord engine.x[j]? other.x[j + offset]?
  if current then
    let back ← rewind engine.x (Vector.replicate p.n none) (p.n - 1) offset
    forAll offset fun j => sameWord back.data[j + p.n - offset]?.join other.x[j]?
  else some false

/-- `operator==`. -/
def equal (x y : Engine p) : Option Bool := if x.i < y.i then x.equalImp y else y.equalImp x

/-- `operator!=`. -/
def notEqual (x y : Engine p) : Option Bool := (x.equal y).map Bool.not

/-- The word put out after `k` more calls. -/
def output (engine : Engine p) (k : Nat) : Option (BitVec p.w) :=
  (engine.discard k).bind fun later => later.next.map Prod.fst

end Engine

/-- Both engines put out the same words forever. -/
def SameOutputs (g h : Engine p) : Prop :=
  ∀ k, ∃ word, g.output k = some word ∧ h.output k = some word

variable {X Y : Nat → BitVec p.w} {time time' start start' : Nat} {engine other g h : Engine p}

/-- Calling an engine any number of times. -/
theorem Located.exists_discard (located : Located X time engine start)
    (obeys : (recurrence p).Obeys X) (k : Nat) :
    ∃ later start', engine.discard k = some later ∧ Located X (time + k) later start' := by
  obtain ⟨later, ran, start', located⟩ := @forLoop_invariant _
    (fun k engine => ∃ start, Located X (time + k) engine start) 0 k (Nat.zero_le k)
    (fun _ engine => engine.next.map Prod.snd)
    (by
      rintro k engine - - ⟨start, located⟩
      obtain ⟨after, later, called, _, still, _⟩ := located.next obeys
      exact ⟨after, by rw [called]; rfl, later, still⟩)
    engine ⟨start, located⟩
  exact ⟨later, start', ran, located⟩

theorem Located.output (located : Located X time engine start) (obeys : (recurrence p).Obeys X)
    (k : Nat) : engine.output k = some (temper p (X (time + k))) := by
  obtain ⟨later, _, ran, still⟩ := located.exists_discard obeys k
  obtain ⟨after, _, called, _⟩ := still.next obeys
  rw [Engine.output, ran, Option.bind_some, called]
  rfl

theorem Located.sameOutputs (left : Located X time g start) (right : Located X time h start')
    (obeys : (recurrence p).Obeys X) : SameOutputs g h :=
  fun k => ⟨_, left.output obeys k, right.output obeys k⟩

/-- `equal_imp` finds out whether the other array holds the terms it has to. -/
theorem Located.equalImp_decides (located : Located X time engine start)
    (obeys : (recurrence p).Obeys X) (reversible : p.Reversible) (started : 1 ≤ engine.i)
    (ordered : engine.i ≤ other.i) (enough : engine.i < other.i → p.n ≤ start) :
    ∃ result, engine.equalImp other = some result ∧
      (result = true ↔ Located X time other (time - other.i)) := by
  have position := located.position
  have i_le_n := other.i_le_n
  have n_pos := p.n_pos
  let offset := other.i - engine.i
  let agrees (k : Nat) : Prop := other.x[k]? = some (X (start - offset + k))
  have located_iff : Located X time other (time - other.i) ↔ ∀ k < p.n, agrees k := by
    have place : time - other.i = start - offset := by omega
    rw [place]
    exact ⟨fun ⟨slid, _⟩ => Slid.zero_iff.mp slid,
      fun terms => ⟨Slid.zero_iff.mpr terms, by omega⟩⟩
  -- the words both arrays have
  obtain ⟨current, compared, meaning⟩ := @forAll_decides (p.n - offset)
    (fun j => sameWord engine.x[j]? other.x[j + offset]?) (fun j => agrees (j + offset))
    fun j below => by
      have word : engine.x[j]? = some (X (start - offset + (j + offset))) :=
        pendingWord located.slid (Nat.zero_le j) (by omega) (by omega)
      rw [word]
      exact sameWord_decides _ other.x (by omega)
  -- the words only the other array has
  obtain ⟨back, ran, rewound⟩ := exists_rewind obeys reversible located.slid
    (Vector.replicate p.n none) (p.n - 1) offset (fun _ => enough (by omega)) (by omega)
    (by omega) (by omega)
  obtain ⟨earlier, comparedBack, meaningBack⟩ := @forAll_decides offset
    (fun j => sameWord back.data[j + p.n - offset]?.join other.x[j]?) agrees fun j below => by
      have enough := enough (by omega)
      have slot : p.n - 1 - (offset - 1 - j) = j + p.n - offset := by omega
      have place : start - 1 - (offset - 1 - j) = start - offset + j := by omega
      obtain ⟨word, held, _, full⟩ := rewound.words (offset - 1 - j) (by omega)
      rw [full (by omega), slot, place] at held
      rw [held]
      exact sameWord_decides _ other.x (by omega)
  have fits : offset ≤ p.n := (Nat.sub_le other.i engine.i).trans i_le_n
  rw [located_iff, forall_lt_iff_of_le fits, ← meaning, ← meaningBack]
  cases current with
  | false => exact ⟨false, by simp [Engine.equalImp, offset, compared], by simp⟩
  | true => exact ⟨earlier, by simp [Engine.equalImp, offset, compared, ran, comparedBack], by simp⟩

/-- `operator==` finds out whether the engine with more outputs since its last `twist` has its place
in the sequence of the other. -/
theorem equal_decides (left : Located X time g start) (right : Located Y time' h start')
    (obeys : (recurrence p).Obeys X) (obeys' : (recurrence p).Obeys Y) (reversible : p.Reversible)
    (leftStarted : 1 ≤ g.i) (rightStarted : 1 ≤ h.i) (leftEnough : g.i < h.i → p.n ≤ start)
    (rightEnough : h.i < g.i → p.n ≤ start') :
    ∃ result, g.equal h = some result ∧
      (result = true ↔ if g.i < h.i then Located X time h (time - h.i)
        else Located Y time' g (time' - g.i)) := by
  by_cases fewer : g.i < h.i
  · rw [Engine.equal, if_pos fewer, if_pos fewer]
    exact left.equalImp_decides obeys reversible leftStarted fewer.le leftEnough
  · rw [Engine.equal, if_neg fewer, if_neg fewer]
    exact right.equalImp_decides obeys' reversible rightStarted (Nat.le_of_not_lt fewer) rightEnough

theorem Located.placed (located : Located X time engine start) :
    Located X time engine (time - engine.i) := by
  have place : start = time - engine.i := Nat.eq_sub_of_add_eq located.position
  rwa [← place]

/-- Both engines are about to put out the same term of one sequence, and the one that has put out
fewer words of its array has a block of the sequence behind it. -/
structure Level (X : Nat → BitVec p.w) (time : Nat) (g h : Engine p) (start start' : Nat) :
    Prop where
  left : Located X time g start
  right : Located X time h start'
  leftStarted : 1 ≤ g.i
  rightStarted : 1 ≤ h.i
  leftEnough : g.i < h.i → p.n ≤ start
  rightEnough : h.i < g.i → p.n ≤ start'

namespace Level

/-- Engines that are level compare equal. -/
theorem equal (level : Level X time g h start start') (obeys : (recurrence p).Obeys X)
    (reversible : p.Reversible) : g.equal h = some true := by
  obtain ⟨result, compared, meaning⟩ := equal_decides level.left level.right obeys obeys reversible
    level.leftStarted level.rightStarted level.leftEnough level.rightEnough
  rw [compared, meaning.mpr]
  split
  · exact level.right.placed
  · exact level.left.placed

/-- A call of each keeps them level: an engine that has to `twist` then has a block behind it. -/
theorem next (level : Level X time g h start start') (obeys : (recurrence p).Obeys X) :
    ∃ word g' h' later later', g.next = some (word, g') ∧ h.next = some (word, h') ∧
      Level X (time + 1) g' h' later later' := by
  obtain ⟨left, right, _, _, leftEnough, rightEnough⟩ := level
  obtain ⟨g', later, calledLeft, started, stillLeft, leftMoved⟩ := left.next obeys
  obtain ⟨h', later', calledRight, started', stillRight, rightMoved⟩ := right.next obeys
  have position := left.position
  have position' := right.position
  have laterPosition := stillLeft.position
  have laterPosition' := stillRight.position
  exact ⟨_, g', h', later, later', calledLeft, calledRight, stillLeft, stillRight, started,
    started', by omega, by omega⟩

theorem exists_discard (level : Level X time g h start start') (obeys : (recurrence p).Obeys X)
    (k : Nat) :
    ∃ g' h' later later', g.discard k = some g' ∧ h.discard k = some h' ∧
      Level X (time + k) g' h' later later' := by
  induction k with
  | zero => exact ⟨g, h, start, start', forLoop_self 0 _ g, forLoop_self 0 _ h, level⟩
  | succ k induction =>
      obtain ⟨g', h', later, later', ran, ran', still⟩ := induction
      obtain ⟨word, g'', h'', last, last', called, called', again⟩ := still.next obeys
      rw [Engine.discard] at ran ran'
      refine ⟨g'', h'', last, last', ?_, ?_, again⟩
      · rw [Engine.discard, forLoop_succ (Nat.zero_le k), ran, Option.bind_some, called]
        rfl
      · rw [Engine.discard, forLoop_succ (Nat.zero_le k), ran', Option.bind_some, called']
        rfl

end Level

/-- Engines that compare equal are level, in the sequence of one of them. -/
theorem exists_level_of_equal (left : Grounded X time g start)
    (right : Grounded Y time' h start') (obeys : (recurrence p).Obeys X)
    (obeys' : (recurrence p).Obeys Y) (reversible : p.Reversible) (equals : g.equal h = some true) :
    ∃ Z time later later', (recurrence p).Obeys Z ∧ Level Z time g h later later' := by
  have leftEnough (fewer : g.i < h.i) := left.behind (fewer.trans_le h.i_le_n)
  have rightEnough (more : h.i < g.i) := right.behind (more.trans_le g.i_le_n)
  obtain ⟨result, compared, meaning⟩ := equal_decides left.toLocated right.toLocated obeys obeys'
    reversible left.started right.started leftEnough rightEnough
  obtain rfl : true = result := Option.some.inj (equals.symm.trans compared)
  have held := meaning.mp rfl
  split at held
  case isTrue fewer =>
    exact ⟨X, time, start, _, obeys, left.toLocated, held, left.started, right.started, leftEnough,
      by omega⟩
  case isFalse atLeast =>
    exact ⟨Y, time', _, start', obeys', held, right.toLocated, left.started, right.started,
      by omega, rightEnough⟩

/-- The words an engine prints make an engine that is level with it. -/
theorem Grounded.exists_level (grounded : Grounded X time g start)
    (obeys : (recurrence p).Obeys X) (reversible : p.Reversible) :
    ∃ words : Vector (BitVec p.w) p.n, g.print = some words.toList ∧
      Level X time g (.fresh words) start (time - p.n) ∧
        Grounded X time (.fresh words) (time - p.n) := by
  obtain ⟨words, printed, slid⟩ := grounded.exists_print obeys reversible
  have located : Located X time (.fresh words) (time - p.n) :=
    ⟨slid, Nat.sub_add_cancel grounded.enough⟩
  refine ⟨words, printed, ⟨grounded.toLocated, located, grounded.started, p.n_pos, ?_, ?_⟩,
    ⟨located, p.n_pos, .inl rfl⟩⟩
  · exact fun fewer => grounded.behind fewer
  · exact fun more => (Nat.not_lt_of_le g.i_le_n more).elim

/-- Reading back what an engine prints makes an engine that puts out the same words, compares equal
and prints the same. -/
theorem read_print (p : Params) (two_le_m : 2 ≤ p.m) (top : p.a.msb = true)
    (first : Vector (BitVec p.w) p.n) (calls : Nat) {g : Engine p}
    (ran : (Engine.fresh first).discard calls = some g) :
    ∃ printed, g.print = some printed ∧ printed.length = p.n ∧
      ∀ (engine : Engine p) (rest : List (BitVec p.w)), ∃ h,
        engine.read (printed ++ rest) = some (h, rest) ∧ SameOutputs g h ∧
          g.equal h = some true ∧ h.print = some printed := by
  have obeys := (recurrence p).obeys_sequence first
  have reversible : p.Reversible := ⟨two_le_m, top⟩
  obtain ⟨start, grounded⟩ := grounded_of_discard ran
  obtain ⟨words, printed, level, groundedCopy⟩ := grounded.exists_level obeys reversible
  refine ⟨words.toList, printed, words.length_toList, fun engine rest => ⟨.fresh words, ?_⟩⟩
  obtain ⟨again, printedAgain, slid⟩ := groundedCopy.exists_print obeys reversible
  have same : again = words := slid.unique groundedCopy.slid
  rw [same] at printedAgain
  exact ⟨engine.read_words words rest, level.left.sameOutputs level.right obeys,
    level.equal obeys reversible, printedAgain⟩

/-- An engine in the middle of a block is saved and restored. -/
theorem read_print_mid_block :
    ∃ g : Engine mt19937, (Engine.fresh (Vector.replicate 624 1)).discard 5 = some g ∧
      ∃ printed h, g.print = some printed ∧
        (Engine.fresh (Vector.replicate 624 0)).read printed = some (h, []) ∧
          g.equal h = some true := by
  obtain ⟨g, ran, _⟩ := exists_discard ((recurrence mt19937).obeys_sequence (.replicate 624 1))
    (@Slid.sequence _ (recurrence mt19937) (.replicate 624 1)) 5
  obtain ⟨printed, prints, _, reads⟩ :=
    read_print mt19937 reversible_mt19937.two_le_m reversible_mt19937.top (.replicate 624 1) 5 ran
  obtain ⟨h, read, _, equals, _⟩ := reads (.fresh (.replicate 624 0)) []
  rw [List.append_nil] at read
  exact ⟨g, ran, printed, h, prints, read, equals⟩

/-- Engines that compare equal put out the same words forever, and go on comparing equal. -/
theorem equal_sound (p : Params) (two_le_m : 2 ≤ p.m) (top : p.a.msb = true)
    (first first' : Vector (BitVec p.w) p.n) (calls calls' : Nat) {g h : Engine p}
    (ran : (Engine.fresh first).discard calls = some g)
    (ran' : (Engine.fresh first').discard calls' = some h) (equals : g.equal h = some true) :
    SameOutputs g h ∧ ∀ k, ∃ g' h', g.discard k = some g' ∧ h.discard k = some h' ∧
      g'.equal h' = some true := by
  have reversible : p.Reversible := ⟨two_le_m, top⟩
  obtain ⟨start, left⟩ := grounded_of_discard ran
  obtain ⟨start', right⟩ := grounded_of_discard ran'
  obtain ⟨X, time, later, later', obeys, level⟩ :=
    exists_level_of_equal left right ((recurrence p).obeys_sequence first)
      ((recurrence p).obeys_sequence first') reversible equals
  refine ⟨level.left.sameOutputs level.right obeys, fun k => ?_⟩
  obtain ⟨g', h', _, _, ranLeft, ranRight, still⟩ := level.exists_discard obeys k
  exact ⟨g', h', ranLeft, ranRight, still.equal obeys reversible⟩

/-- An engine in the middle of a block compares equal to one that starts with the same words, and
does so three words later. -/
theorem equal_sound_mid_block :
    ∃ (g : Engine mt19937) (words : Vector (BitVec 32) 624),
      (Engine.fresh (Vector.replicate 624 1)).discard 5 = some g ∧
        ∃ g' h' : Engine mt19937, g.discard 3 = some g' ∧
          (@Engine.fresh mt19937 words).discard 3 = some h' ∧ g'.equal h' = some true := by
  have reversible := reversible_mt19937
  have obeys := (recurrence mt19937).obeys_sequence (.replicate 624 1)
  obtain ⟨g, ran, _⟩ :=
    exists_discard obeys (@Slid.sequence _ (recurrence mt19937) (.replicate 624 1)) 5
  obtain ⟨start, grounded⟩ := grounded_of_discard ran
  obtain ⟨words, _, level, _⟩ := grounded.exists_level obeys reversible
  obtain ⟨_, still⟩ := equal_sound mt19937 reversible.two_le_m reversible.top (.replicate 624 1)
    words 5 0 ran (forLoop_self 0 _ _) (level.equal obeys reversible)
  exact ⟨g, words, ran, still 3⟩

end MersenneTwisterEngine
end BoostTest
