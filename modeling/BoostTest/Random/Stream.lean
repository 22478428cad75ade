import BoostTest.Random.Rewind

/-!
# Writing and reading an engine

`operator<<` prints the `n` words before the next output, whatever the position in the array: those
before the array are rewound.  `operator>>` puts `n` words into the array and starts with a `twist`.
A stream is the list of its words; a word it does not have stays in the array as it was.
-/

namespace BoostTest
namespace MersenneTwisterEngine

open Recurrence

variable {p : Params}

namespace Engine

/-- `data[j + n - i] = x[j]` for a word of the array. -/
def copyWord (engine : Engine p) (j : Nat) (data : Vector (Option (BitVec p.w)) p.n) :
    Option (Vector (Option (BitVec p.w)) p.n) := do
  let word ← engine.x[j]?
  if within : j + p.n - engine.i < p.n then
    some (data.set (j + p.n - engine.i) (some word))
  else none

/-- `if(i != n) rewind(&data[n - i - 1], n - i);` -/
def rewindRest (engine : Engine p) (data : Vector (Option (BitVec p.w)) p.n) :
    Option (Vector (Option (BitVec p.w)) p.n) :=
  if engine.i ≠ p.n then
    (rewind engine.x data (p.n - engine.i - 1) (p.n - engine.i)).map Rewinding.data
  else some data

/-- `print(os)`, with the words printed. -/
def print (engine : Engine p) : Option (List (BitVec p.w)) := do
  let data ← forLoop 0 engine.i engine.copyWord (Vector.replicate p.n none)
  let data ← engine.rewindRest data
  let first ← data[0]?.join
  forLoop 1 p.n (fun j printed => data[j]?.join.map fun word => printed ++ [word]) [first]

/-- `is >> mt.x[j]`. -/
def readWord (j : Nat) (input : Vector (BitVec p.w) p.n × List (BitVec p.w)) :
    Option (Vector (BitVec p.w) p.n × List (BitVec p.w)) :=
  if within : j < p.n then
    match input.2 with
    -- the extraction fails, and leaves the word alone
    | [] => some input
    | word :: rest => some (input.1.set j word, rest)
  else none

/-- `operator>>`, with the words left in the stream. -/
def read (engine : Engine p) (stream : List (BitVec p.w)) :
    Option (Engine p × List (BitVec p.w)) :=
  (forLoop 0 p.n readWord (engine.x, stream)).map fun input => (fresh input.1, input.2)

/-- One word is taken from the stream if there is one. -/
theorem readWord_drop {j : Nat} (within : j < p.n) (x : Vector (BitVec p.w) p.n)
    (stream : List (BitVec p.w)) :
    readWord j (x, stream.drop j) = some (x.set j (stream[j]?.getD x[j]), stream.drop (j + 1)) := by
  by_cases more : j < stream.length
  · rw [readWord, dif_pos within, List.drop_eq_getElem_cons more, List.getElem?_eq_getElem more]
    rfl
  · have ended : stream.drop j = [] := List.drop_of_length_le (by omega)
    have nothing : stream.drop (j + 1) = [] := List.drop_of_length_le (by omega)
    rw [readWord, dif_pos within, ended, nothing, List.getElem?_eq_none (by omega),
      Option.getD_none, Vector.set_getElem_self]

/-- `operator>>` takes the words the array has room for, keeps the words the stream does not have,
and starts with a `twist`. -/
theorem read_eq (engine : Engine p) (stream : List (BitVec p.w)) :
    engine.read stream =
      some (fresh (.ofFn fun k => stream[k.val]?.getD engine.x[k]), stream.drop p.n) := by
  obtain ⟨⟨x, left⟩, ran, remaining, copied⟩ := @forLoop_invariant _
    (fun j (input : Vector (BitVec p.w) p.n × List (BitVec p.w)) =>
      input.2 = stream.drop j ∧ ∀ k (within : k < p.n),
        input.1[k] = if k < j then stream[k]?.getD engine.x[k] else engine.x[k])
    0 p.n (Nat.zero_le p.n) readWord
    (by
      rintro j ⟨x, left⟩ - within ⟨remaining, copied⟩
      simp only at remaining copied
      subst remaining
      refine ⟨_, readWord_drop within x stream, rfl, fun k inside => ?_⟩
      rw [Vector.getElem_set, copied j within, if_neg (Nat.lt_irrefl j), copied k inside]
      split
      case isTrue same =>
        subst same
        rw [if_pos (Nat.lt_succ_self j)]
      case isFalse different => exact if_congr (by omega) rfl rfl)
    (engine.x, stream) ⟨rfl, fun _ _ => (if_neg (Nat.not_lt_zero _)).symm⟩
  have same : x = .ofFn fun k : Fin p.n => stream[k.val]?.getD engine.x[k] := by
    refine Vector.ext fun k within => ?_
    rw [Vector.getElem_ofFn]
    exact (copied k within).trans (if_pos within)
  simp only at remaining
  rw [read, ran, same, remaining]
  rfl

/-- A stream with enough words replaces the array. -/
theorem read_words (engine : Engine p) (words : Vector (BitVec p.w) p.n)
    (rest : List (BitVec p.w)) :
    engine.read (words.toList ++ rest) = some (fresh words, rest) := by
  have length := words.length_toList
  rw [read_eq, List.drop_append_of_le_length length.ge, List.drop_of_length_le length.le,
    List.nil_append]
  congr 3
  refine Vector.ext fun k within => ?_
  have inside : k < words.toList.length := within.trans_eq length.symm
  rw [Vector.getElem_ofFn, List.getElem?_append_left inside, List.getElem?_eq_getElem inside]
  rfl

end Engine

/-- The word at `k` is initialized, with the term `k` places after `origin`. -/
def Holds (X : Nat → BitVec p.w) (origin : Nat) (data : Vector (Option (BitVec p.w)) p.n)
    (k : Nat) : Prop :=
  data[k]? = some (some (X (origin + k)))

/-- The engine has put out a word of its array or is to start with a `twist`, and with words of the
array left to put out it has a block behind it to rewind into. -/
structure Grounded (X : Nat → BitVec p.w) (time : Nat) (engine : Engine p) (start : Nat) : Prop
    extends Located X time engine start where
  started : 1 ≤ engine.i
  history : engine.i = p.n ∨ p.n ≤ start

theorem Grounded.enough {X : Nat → BitVec p.w} {time start : Nat} {engine : Engine p}
    (grounded : Grounded X time engine start) : p.n ≤ time := by
  have position := grounded.position
  rcases grounded.history with used | enough <;> omega

/-- An engine with words of its array left to put out has a block behind it. -/
theorem Grounded.behind {X : Nat → BitVec p.w} {time start : Nat} {engine : Engine p}
    (grounded : Grounded X time engine start) (inUse : engine.i < p.n) : p.n ≤ start :=
  grounded.history.resolve_left inUse.ne

/-- Every state an engine comes to is grounded. -/
theorem grounded_of_discard {first : Vector (BitVec p.w) p.n} {calls : Nat} {engine : Engine p}
    (ran : (Engine.fresh first).discard calls = some engine) :
    ∃ start, Grounded ((recurrence p).sequence first) (p.n + calls) engine start := by
  obtain ⟨other, ran', block, started, represents⟩ := exists_discard
    ((recurrence p).obeys_sequence first) (@Slid.sequence _ (recurrence p) first) calls
  obtain rfl : engine = other := Option.some.inj (ran.symm.trans ran')
  refine ⟨p.n * block, ⟨represents.located, started, ?_⟩⟩
  have position := represents.position
  have i_le_n := engine.i_le_n
  cases block with
  | zero => exact .inl (by omega)
  | succ block => exact .inr (Nat.le_mul_of_pos_right p.n (Nat.succ_pos block))

section Print

variable {X : Nat → BitVec p.w} {time start : Nat} {engine : Engine p}

/-- The words of the array that are put out already are the last ones printed. -/
theorem Located.exists_copied (located : Located X time engine start) (enough : p.n ≤ time) :
    ∃ data, forLoop 0 engine.i engine.copyWord (Vector.replicate p.n none) = some data ∧
      ∀ k, p.n ≤ k + engine.i → k < p.n → Holds X (time - p.n) data k := by
  have position := located.position
  have i_le_n := engine.i_le_n
  obtain ⟨data, ran, holds⟩ := @forLoop_invariant _
    (fun j data => ∀ k, p.n ≤ k + engine.i → k < j + p.n - engine.i → Holds X (time - p.n) data k)
    0 engine.i (Nat.zero_le engine.i) engine.copyWord
    (by
      intro j data _ below holds
      have word : engine.x[j]? = some (X (start + j)) :=
        pendingWord located.slid (Nat.zero_le j) (by omega) rfl
      have inside : j + p.n - engine.i < p.n := by omega
      refine ⟨_, by rw [Engine.copyWord, word]; exact dif_pos inside, fun k above recent => ?_⟩
      rw [Holds, Vector.getElem?_set]
      split
      case isTrue same =>
        have place : start + j = time - p.n + k := by omega
        rw [place]
      case isFalse different => exact holds k above (by omega))
    (Vector.replicate p.n none) (fun k above below => by omega)
  exact ⟨data, ran, fun k above within => holds k above (by omega)⟩

/-- The words before those of the array are rewound. -/
theorem Grounded.exists_rewindRest (grounded : Grounded X time engine start)
    (obeys : (recurrence p).Obeys X) (reversible : p.Reversible)
    {data : Vector (Option (BitVec p.w)) p.n}
    (copied : ∀ k, p.n ≤ k + engine.i → k < p.n → Holds X (time - p.n) data k) :
    ∃ complete, engine.rewindRest data = some complete ∧
      ∀ k < p.n, Holds X (time - p.n) complete k := by
  have position := grounded.position
  have started := grounded.started
  have i_le_n := engine.i_le_n
  rw [Engine.rewindRest]
  split
  case isTrue used =>
    have enough := grounded.behind (Nat.lt_of_le_of_ne i_le_n used)
    obtain ⟨rewound, ran, holds⟩ := exists_rewind obeys reversible grounded.slid data
      (p.n - engine.i - 1) (p.n - engine.i) (fun _ => enough) (Nat.sub_le p.n engine.i) (by omega)
      (by omega)
    refine ⟨rewound.data, by rw [ran]; rfl, fun k within => ?_⟩
    by_cases before : k + engine.i < p.n
    · have slot : p.n - engine.i - 1 - (p.n - engine.i - 1 - k) = k := by omega
      have place : start - 1 - (p.n - engine.i - 1 - k) = time - p.n + k := by omega
      obtain ⟨word, stored, _, full⟩ := holds.words (p.n - engine.i - 1 - k) (by omega)
      rw [full (by omega), slot, place] at stored
      exact stored
    · rw [Holds, holds.frame k (by omega)]
      exact copied k (by omega) within
  case isFalse all => exact ⟨data, rfl, fun k within => copied k (by omega) within⟩

/-- `operator<<` prints the `n` terms before the next output. -/
theorem Grounded.exists_print (grounded : Grounded X time engine start)
    (obeys : (recurrence p).Obeys X) (reversible : p.Reversible) :
    ∃ words : Vector (BitVec p.w) p.n, engine.print = some words.toList ∧
      @Slid _ (recurrence p) X (time - p.n) 0 words := by
  obtain ⟨copy, copies, copied⟩ := grounded.exists_copied grounded.enough
  obtain ⟨data, rewinds, holds⟩ := grounded.exists_rewindRest obeys reversible copied
  have word (k : Nat) (within : k < p.n) : data[k]?.join = some (X (time - p.n + k)) := by
    rw [holds k within]
    rfl
  let words : Vector (BitVec p.w) p.n := Vector.ofFn fun k => X (time - p.n + k)
  have listed : words.toList = (List.range p.n).map fun k => X (time - p.n + k) :=
    List.ext_getElem (by simp) (by simp [words])
  obtain ⟨printed, prints, whole⟩ := @forLoop_invariant _
    (fun j printed => printed = (List.range j).map fun k => X (time - p.n + k))
    1 p.n p.n_pos (fun j printed => data[j]?.join.map fun word => printed ++ [word])
    (by
      rintro j printed - below rfl
      refine ⟨_, by rw [word j below]; rfl, ?_⟩
      rw [List.range_succ, List.map_append, List.map_singleton])
    [X (time - p.n + 0)] rfl
  refine ⟨words, ?_, fun k within => by simp [words]⟩
  rw [listed, ← whole]
  simp only [Engine.print, copies, rewinds, word 0 p.n_pos, Option.bind_eq_bind, Option.bind_some]
  exact prints

end Print
end MersenneTwisterEngine
end BoostTest
