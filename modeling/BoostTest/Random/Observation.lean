import BoostTest.Random.Equality

/-!
# Engines with the same outputs

Tempering loses nothing, so the outputs of an engine determine the terms of its sequence from the
next one on, and by the recurrence read backwards the terms before.  Only the low bits of the first
term of all are in no other term: a new array holds them, `operator==` compares them, and no output
depends on them.
-/

namespace BoostTest
namespace MersenneTwisterEngine

open Recurrence WordBits

variable {p : Params}

/-- The three typedefs. -/
def typedefs : List Params := [mt11213b, mt19937, mt19937x64]

/-- What it takes of the parameters to find out the state of an engine from its outputs. -/
structure Params.Observable (p : Params) : Prop extends p.Reversible where
  u_pos : 0 < p.u
  s_pos : 0 < p.s
  t_pos : 0 < p.t
  l_pos : 0 < p.l

theorem observable_of_typedef (typedef : p ∈ typedefs) : p.Observable := by
  simp only [typedefs, List.mem_cons, List.not_mem_nil, or_false] at typedef
  rcases typedef with rfl | rfl | rfl <;> exact ⟨⟨by decide, by decide⟩, by decide, by decide,
    by decide, by decide⟩

theorem temper_injective (observable : p.Observable) : Function.Injective (temper p) := by
  have last : Function.Injective fun z : BitVec p.w => z ^^^ (z >>> p.l) := by
    simpa using xor_ushiftRight_injective observable.l_pos (BitVec.allOnes p.w)
  exact last.comp ((xor_shiftLeft_injective observable.t_pos p.c).comp
    ((xor_shiftLeft_injective observable.s_pos p.b).comp
      (xor_ushiftRight_injective observable.u_pos p.d)))

section Sequences

variable {X Y : Nat → BitVec p.w} {time time' : Nat}

/-- Sequences that agree from some terms on agree at any two terms equally far behind these. -/
theorem eq_of_later (later : ∀ j, X (time + j) = Y (time' + j)) {k k' : Nat} (above : time ≤ k)
    (aligned : k + time' = k' + time) : X k = Y k' := by
  have same := later (k - time)
  have place : time' + (k - time) = k' := by omega
  rwa [Nat.add_sub_of_le above, place] at same

/-- Two sequences that agree from some terms on agree in the bits that the terms one place before
share with their successors. -/
theorem pair_eq_of_later (obeys : (recurrence p).Obeys X) (obeys' : (recurrence p).Obeys Y)
    (top : p.a.msb = true) {k k' : Nat}
    (ahead : X (k + p.m) = Y (k' + p.m)) (mixed : X (k + p.n) = Y (k' + p.n)) :
    pair X k = pair Y k' := by
  rw [← unmix_xor obeys top, ← unmix_xor obeys' top, ahead, mixed]

/-- Two sequences that agree from some terms on agree in all earlier terms but the first. -/
theorem earlier_eq (obeys : (recurrence p).Obeys X) (obeys' : (recurrence p).Obeys Y)
    (reversible : p.Reversible) (later : ∀ j, X (time + j) = Y (time' + j)) (back : Nat)
    (within : back < time) (within' : back < time') (j : Nat) :
    X (time - back + j) = Y (time' - back + j) := by
  have two_le_m := reversible.two_le_m
  have m_lt_n := p.m_lt_n
  induction back generalizing j with
  | zero => exact later j
  | succ back induction =>
      have known := induction (by omega) (by omega)
      cases j with
      | succ j => exact eq_of_later known (by omega) (by omega)
      | zero =>
          obtain ⟨k, place⟩ : ∃ k, time - (back + 1) = k + 1 := ⟨time - back - 2, by omega⟩
          obtain ⟨k', place'⟩ : ∃ k', time' - (back + 1) = k' + 1 := ⟨time' - back - 2, by omega⟩
          have high : pair X (k + 1) = pair Y (k' + 1) :=
            pair_eq_of_later obeys obeys' reversible.top
              (eq_of_later known (by omega) (by omega)) (eq_of_later known (by omega) (by omega))
          have low : pair X k = pair Y k' :=
            pair_eq_of_later obeys obeys' reversible.top
              (eq_of_later known (by omega) (by omega)) (eq_of_later known (by omega) (by omega))
          rw [Nat.add_zero, Nat.add_zero, place, place', ← join_pair X k, ← join_pair Y k', high,
            low]

/-- Two sequences that agree from some terms on have the same upper bits wherever both go back. -/
theorem upper_eq (obeys : (recurrence p).Obeys X) (obeys' : (recurrence p).Obeys Y)
    (reversible : p.Reversible) (later : ∀ j, X (time + j) = Y (time' + j)) {back : Nat}
    (within : back ≤ time) (within' : back ≤ time') :
    X (time - back) &&& upperMask p = Y (time' - back) &&& upperMask p := by
  cases back with
  | zero =>
      have same : X time = Y time' :=
        eq_of_later later (Nat.le_refl time) (Nat.add_comm time time')
      rw [Nat.sub_zero, Nat.sub_zero, same]
  | succ back =>
      have known := earlier_eq obeys obeys' reversible later back within within'
      have two_le_m := reversible.two_le_m
      have m_lt_n := p.m_lt_n
      have same : pair X (time - (back + 1)) = pair Y (time' - (back + 1)) :=
        pair_eq_of_later obeys obeys' reversible.top
          (eq_of_later known (by omega) (by omega)) (eq_of_later known (by omega) (by omega))
      calc
        X (time - (back + 1)) &&& upperMask p
            = pair X (time - (back + 1)) &&& upperMask p := (join_and _ _ _).symm
        _ = pair Y (time' - (back + 1)) &&& upperMask p := by rw [same]
        _ = Y (time' - (back + 1)) &&& upperMask p := join_and _ _ _

/-- Sequences whose first terms differ in the low bits of the very first one only agree from the
second term on. -/
theorem eq_of_upper_eq (obeys : (recurrence p).Obeys X) (obeys' : (recurrence p).Obeys Y)
    (upper : X 0 &&& upperMask p = Y 0 &&& upperMask p)
    (others : ∀ k, 1 ≤ k → k < p.n → X k = Y k) (k : Nat) (positive : 1 ≤ k) : X k = Y k := by
  induction k using Nat.strongRecOn with
  | ind k induction =>
      have m_pos := p.m_pos
      have m_lt_n := p.m_lt_n
      by_cases initial : k < p.n
      · exact others k positive initial
      · obtain ⟨earlier, rfl⟩ := Nat.exists_eq_add_of_le' (Nat.le_of_not_lt initial)
        have samePair : pair X earlier = pair Y earlier := by
          rw [pair, pair, induction (earlier + 1) (by omega) (by omega)]
          apply join_congr
          cases earlier with
          | zero => exact upper
          | succ earlier => rw [induction (earlier + 1) (by omega) (by omega)]
        have term := obeys earlier
        have term' := obeys' earlier
        simp only [mix_eq_shiftDown] at term term'
        rw [term, term']
        change X (earlier + p.m) ^^^ shiftDown p.a (pair X earlier) =
          Y (earlier + p.m) ^^^ shiftDown p.a (pair Y earlier)
        rw [samePair, induction (earlier + p.m) (by omega) (by omega)]

end Sequences

section Engines

variable {X Y : Nat → BitVec p.w} {time time' start start' : Nat} {g h : Engine p}

/-- Engines with the same outputs have the same terms to come. -/
theorem later_eq_of_sameOutputs (observable : p.Observable) (left : Located X time g start)
    (right : Located Y time' h start') (obeys : (recurrence p).Obeys X)
    (obeys' : (recurrence p).Obeys Y) (same : SameOutputs g h) (j : Nat) :
    X (time + j) = Y (time' + j) := by
  obtain ⟨word, output, output'⟩ := same j
  rw [left.output obeys] at output
  rw [right.output obeys'] at output'
  exact temper_injective observable (Option.some.inj (output.trans output'.symm))

/-- With all terms but the oldest known to agree, and that one too unless the array holds it, an
engine of one sequence is at its place in the other exactly if the oldest terms agree. -/
theorem Located.transfer_iff (right : Located Y time' h start') (enough : p.n ≤ time)
    (enough' : p.n ≤ time') (terms : ∀ j, X (time - p.n + 1 + j) = Y (time' - p.n + 1 + j))
    (held : h.i < p.n → X (time - p.n) = Y (time' - p.n)) :
    Located X time h (time - h.i) ↔ X (time - p.n) = Y (time' - p.n) := by
  have position := right.position
  have i_le_n := h.i_le_n
  constructor
  · intro located
    by_cases fewer : h.i < p.n
    · exact held fewer
    · have word : h.x[0]? = some (X (time - p.n)) :=
        pendingWord located.slid (Nat.le_refl 0) p.n_pos (by omega)
      have word' : h.x[0]? = some (Y (time' - p.n)) :=
        pendingWord right.slid (Nat.le_refl 0) p.n_pos (by omega)
      exact Option.some.inj (word.symm.trans word')
  · intro oldest
    refine ⟨Slid.zero_iff.mpr fun k within => ?_, by omega⟩
    have same : X (time - h.i + k) = Y (start' + k) := by
      rcases Nat.eq_zero_or_pos (p.n - h.i + k) with first | later
      · have place : time - h.i + k = time - p.n := by omega
        have place' : start' + k = time' - p.n := by omega
        rw [place, place', oldest]
      · exact eq_of_later terms (by omega) (by omega)
    rw [same]
    exact Slid.zero_iff.mp right.slid k within

/-- Engines with the same terms to come compare equal exactly if the terms `n` places before agree;
these are the oldest ones an array can hold. -/
theorem equal_decides_oldest (left : Grounded X time g start) (right : Grounded Y time' h start')
    (obeys : (recurrence p).Obeys X) (obeys' : (recurrence p).Obeys Y)
    (reversible : p.Reversible) (later : ∀ j, X (time + j) = Y (time' + j)) :
    ∃ result, g.equal h = some result ∧
      (result = true ↔ X (time - p.n) = Y (time' - p.n)) := by
  have n_pos := p.n_pos
  have enough := left.enough
  have enough' := right.enough
  have known := earlier_eq obeys obeys' reversible later (p.n - 1) (by omega) (by omega)
  have terms (j : Nat) : X (time - p.n + 1 + j) = Y (time' - p.n + 1 + j) :=
    eq_of_later known (by omega) (by omega)
  -- with both arrays in use, both sequences go back further
  have held (fewer : g.i < p.n) (fewer' : h.i < p.n) : X (time - p.n) = Y (time' - p.n) := by
    have started := left.started
    have started' := right.started
    have position := left.position
    have position' := right.position
    have enough := left.behind fewer
    have enough' := right.behind fewer'
    exact earlier_eq obeys obeys' reversible later p.n (by omega) (by omega) 0
  have leftEnough (fewer : g.i < h.i) := left.behind (fewer.trans_le h.i_le_n)
  have rightEnough (more : h.i < g.i) := right.behind (more.trans_le g.i_le_n)
  obtain ⟨result, compared, meaning⟩ := equal_decides left.toLocated right.toLocated obeys obeys'
    reversible left.started right.started leftEnough rightEnough
  refine ⟨result, compared, meaning.trans ?_⟩
  split
  case isTrue fewer =>
    exact right.transfer_iff enough enough' terms fun inUse => held (by omega) inUse
  case isFalse atLeast =>
    have transfer := left.transfer_iff enough' enough (fun j => (terms j).symm)
      fun inUse => (held inUse (by omega)).symm
    exact transfer.trans eq_comm

/-- The oldest term an engine holds or can be rewound to is the first one printed. -/
theorem Grounded.exists_head (grounded : Grounded X time g start) (obeys : (recurrence p).Obeys X)
    (reversible : p.Reversible) :
    ∃ printed, g.print = some printed ∧ printed.head? = some (X (time - p.n)) := by
  obtain ⟨words, printed, slid⟩ := grounded.exists_print obeys reversible
  refine ⟨words.toList, printed, ?_⟩
  have oldest := Slid.zero_iff.mp slid 0 p.n_pos
  rw [List.head?_eq_getElem?, Vector.getElem?_toList]
  exact oldest

end Engines

section LowBits

variable {first first' : Vector (BitVec p.w) p.n}

/-- Arrays that agree but for low bits of the first word are continued in the same way. -/
theorem sequence_eq_of_upper_eq (n_pos : 0 < p.n)
    (upper : first[0] &&& upperMask p = first'[0] &&& upperMask p)
    (others : ∀ k (within : k < p.n), 1 ≤ k → first[k] = first'[k]) (k : Nat) (positive : 1 ≤ k) :
    (recurrence p).sequence first k = (recurrence p).sequence first' k := by
  have initial (words : Vector (BitVec p.w) p.n) (k : Nat) (within : k < p.n) :
      (recurrence p).sequence words k = words[k] := (recurrence p).sequence_of_lt words within
  refine eq_of_upper_eq ((recurrence p).obeys_sequence first)
    ((recurrence p).obeys_sequence first') ?_ (fun k positive within => ?_) k positive
  · rwa [initial first 0 n_pos, initial first' 0 n_pos]
  · rw [initial first k within, initial first' k within]
    exact others k within positive

/-- So the engines started with them have the same outputs. -/
theorem sameOutputs_of_upper_eq (n_pos : 0 < p.n)
    (upper : first[0] &&& upperMask p = first'[0] &&& upperMask p)
    (others : ∀ k (within : k < p.n), 1 ≤ k → first[k] = first'[k]) {calls : Nat} {g h : Engine p}
    (ran : (Engine.fresh first).discard calls = some g)
    (ran' : (Engine.fresh first').discard calls = some h) : SameOutputs g h := by
  obtain ⟨start, left⟩ := grounded_of_discard ran
  obtain ⟨start', right⟩ := grounded_of_discard ran'
  intro k
  refine ⟨_, left.output ((recurrence p).obeys_sequence first) k, ?_⟩
  rw [sequence_eq_of_upper_eq n_pos upper others _ (by omega)]
  exact right.output ((recurrence p).obeys_sequence first') k

end LowBits

/-- Engines with the same outputs compare equal exactly if the first words they print agree in the
low bits as well, in particular if each of them has put out a word. -/
theorem equal_iff_low_bits {p : Params} (typedef : p ∈ typedefs)
    (first first' : Vector (BitVec p.w) p.n) (calls calls' : Nat) {g h : Engine p}
    (ran : (Engine.fresh first).discard calls = some g)
    (ran' : (Engine.fresh first').discard calls' = some h) (same : SameOutputs g h) :
    (∃ printed printed', g.print = some printed ∧ h.print = some printed' ∧
      (g.equal h = some true ↔
        printed.head?.map (· &&& lowerMask p) = printed'.head?.map (· &&& lowerMask p))) ∧
      (1 ≤ calls → 1 ≤ calls' → g.equal h = some true) := by
  have observable := observable_of_typedef typedef
  have reversible := observable.toReversible
  have obeys := (recurrence p).obeys_sequence first
  have obeys' := (recurrence p).obeys_sequence first'
  obtain ⟨start, left⟩ := grounded_of_discard ran
  obtain ⟨start', right⟩ := grounded_of_discard ran'
  have later := later_eq_of_sameOutputs observable left.toLocated right.toLocated obeys obeys' same
  obtain ⟨result, compared, meaning⟩ :=
    equal_decides_oldest left right obeys obeys' reversible later
  rw [compared, Option.some_inj, meaning]
  constructor
  · obtain ⟨printed, prints, head⟩ := left.exists_head obeys reversible
    obtain ⟨printed', prints', head'⟩ := right.exists_head obeys' reversible
    refine ⟨printed, printed', prints, prints', ?_⟩
    rw [head, head', Option.map_some, Option.map_some, Option.some_inj]
    have upper := upper_eq obeys obeys' reversible later left.enough right.enough
    exact ⟨congrArg (· &&& lowerMask p), eq_of_and_eq upper⟩
  · intro called called'
    exact earlier_eq obeys obeys' reversible later p.n (by omega) (by omega) 0

/-- Arrays that differ in the lowest bit of the first word only, after one output each. -/
theorem equal_iff_low_bits_first_word :
    ∃ g h : Engine mt19937, (Engine.fresh (.replicate mt19937.n 1)).discard 1 = some g ∧
      (Engine.fresh ((Vector.replicate mt19937.n 1).set 0 0 (by decide))).discard 1 = some h ∧
        g.equal h = some true := by
  have n_pos := mt19937.n_pos
  let first : Vector (BitVec mt19937.w) mt19937.n := .replicate mt19937.n 1
  let first' : Vector (BitVec mt19937.w) mt19937.n := first.set 0 0
  have upper : first[0] &&& upperMask mt19937 = first'[0] &&& upperMask mt19937 := by
    rw [Vector.getElem_replicate, Vector.getElem_set_self]
    decide
  obtain ⟨g, ran, _⟩ := exists_discard ((recurrence mt19937).obeys_sequence first)
    (@Slid.sequence _ (recurrence mt19937) first) 1
  obtain ⟨h, ran', _⟩ := exists_discard ((recurrence mt19937).obeys_sequence first')
    (@Slid.sequence _ (recurrence mt19937) first') 1
  have same : SameOutputs g h := sameOutputs_of_upper_eq n_pos upper
    (fun k within positive => (Vector.getElem_set_ne n_pos within (by omega)).symm) ran ran'
  have typedef : mt19937 ∈ typedefs := by simp [typedefs]
  obtain ⟨_, equals⟩ := equal_iff_low_bits typedef first first' 1 1 ran ran' same
  exact ⟨g, h, ran, ran', equals (Nat.le_refl 1) (Nat.le_refl 1)⟩

/-- Engines read from arrays that agree but for low bits of the first word have the same outputs,
and compare unequal if those bits differ. -/
theorem fresh_of_upper_eq (reversible : p.Reversible) {first first' : Vector (BitVec p.w) p.n}
    (n_pos : 0 < p.n) (upper : first[0] &&& upperMask p = first'[0] &&& upperMask p)
    (others : ∀ k (within : k < p.n), 1 ≤ k → first[k] = first'[k])
    (differ : first[0] ≠ first'[0]) :
    SameOutputs (.fresh first) (.fresh first') ∧
      (Engine.fresh first).equal (.fresh first') = some false := by
  have ran := forLoop_self 0 (fun _ engine => engine.next.map Prod.snd) (Engine.fresh first)
  have ran' := forLoop_self 0 (fun _ engine => engine.next.map Prod.snd) (Engine.fresh first')
  refine ⟨sameOutputs_of_upper_eq n_pos upper others ran ran', ?_⟩
  obtain ⟨start, left⟩ := grounded_of_discard ran
  obtain ⟨start', right⟩ := grounded_of_discard ran'
  obtain ⟨result, compared, meaning⟩ := equal_decides_oldest left right
    ((recurrence p).obeys_sequence first) ((recurrence p).obeys_sequence first') reversible
    fun j => sequence_eq_of_upper_eq n_pos upper others (p.n + 0 + j) (by omega)
  rw [Nat.add_zero, Nat.sub_self, (recurrence p).sequence_of_lt first n_pos,
    (recurrence p).sequence_of_lt first' n_pos] at meaning
  rw [compared, Bool.eq_false_iff.mpr fun equals => differ (meaning.mp equals)]

/-- Two arrays that differ in the lowest bit of the first word only. -/
theorem equal_fails_on_low_bits :
    SameOutputs (@Engine.fresh mt19937 (Vector.replicate mt19937.n 1))
        (.fresh ((Vector.replicate mt19937.n 1).set 0 0 (by decide))) ∧
      (@Engine.fresh mt19937 (Vector.replicate mt19937.n 1)).equal
        (.fresh ((Vector.replicate mt19937.n 1).set 0 0 (by decide))) = some false := by
  have n_pos := mt19937.n_pos
  refine fresh_of_upper_eq reversible_mt19937 n_pos ?_ (fun k within positive => ?_) ?_
  · rw [Vector.getElem_replicate, Vector.getElem_set_self]
    decide
  · exact (Vector.getElem_set_ne n_pos within (by omega)).symm
  · rw [Vector.getElem_replicate, Vector.getElem_set_self]
    decide

end MersenneTwisterEngine
end BoostTest
