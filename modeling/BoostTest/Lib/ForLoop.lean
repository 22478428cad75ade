import Mathlib.Tactic.Common

/-!
# Counting loops

A loop whose body may fail, for instance at an index out of bounds, and the rule that an invariant
carries such a loop to its end without a failure.  A loop that leaves at the first test that comes
out false decides whether all of them hold.
-/

namespace BoostTest

variable {State : Type*}

/-- `for (j = low; j < high; j++) body`. -/
def forLoop (low high : Nat) (body : Nat → State → Option State) (state : State) : Option State :=
  (List.range' low (high - low)).foldlM (fun state j => body j state) state

@[simp]
theorem forLoop_self (low : Nat) (body : Nat → State → Option State) (state : State) :
    forLoop low low body state = some state := by
  simp [forLoop]

theorem forLoop_of_lt {low high : Nat} (below : low < high) (body : Nat → State → Option State)
    (state : State) :
    forLoop low high body state = (body low state).bind (forLoop (low + 1) high body) := by
  unfold forLoop
  rw [show high - low = high - (low + 1) + 1 by omega, List.range'_succ, List.foldlM_cons]
  rfl

/-- The last round of a loop. -/
theorem forLoop_succ {low high : Nat} (ordered : low ≤ high) (body : Nat → State → Option State)
    (state : State) :
    forLoop low (high + 1) body state = (forLoop low high body state).bind (body high) := by
  unfold forLoop
  rw [Nat.succ_sub ordered, List.range'_1_concat, List.foldlM_append, Nat.add_sub_cancel' ordered]
  simp

/-- What holds before each round, and makes the round succeed, holds at the end of the loop. -/
theorem forLoop_invariant (invariant : Nat → State → Prop) {low high : Nat} (ordered : low ≤ high)
    {body : Nat → State → Option State}
    (preserved : ∀ j state, low ≤ j → j < high → invariant j state →
      ∃ after, body j state = some after ∧ invariant (j + 1) after)
    {state : State} (starts : invariant low state) :
    ∃ final, forLoop low high body state = some final ∧ invariant high final := by
  obtain ⟨rounds, rfl⟩ := Nat.exists_eq_add_of_le ordered
  clear ordered
  induction rounds generalizing low state with
  | zero => exact ⟨state, forLoop_self low body state, starts⟩
  | succ rounds induction =>
      obtain ⟨after, first, still⟩ := preserved low state (Nat.le_refl low) (by omega) starts
      rw [show low + (rounds + 1) = low + 1 + rounds by omega] at preserved ⊢
      obtain ⟨final, rest, ends⟩ :=
        induction still fun j state above below => preserved j state (by omega) below
      exact ⟨final, by rw [forLoop_of_lt (by omega), first]; exact rest, ends⟩

/-- `for (j = 0; j < count; ++j) if (!test) return false;`, with `true` where the loop ends. -/
def forAll (count : Nat) (test : Nat → Option Bool) : Option Bool :=
  (List.range count).allM test

/-- A loop of tests none of which fails decides whether they all hold. -/
theorem forAll_decides {count : Nat} {test : Nat → Option Bool} {property : Nat → Prop}
    (decides : ∀ j < count, ∃ result, test j = some result ∧ (result = true ↔ property j)) :
    ∃ result, forAll count test = some result ∧ (result = true ↔ ∀ j < count, property j) := by
  suffices general : ∀ rounds : List Nat, (∀ j ∈ rounds, j < count) →
      ∃ result, rounds.allM test = some result ∧ (result = true ↔ ∀ j ∈ rounds, property j) by
    simpa [forAll] using general (List.range count) (fun j => List.mem_range.mp)
  intro rounds
  induction rounds with
  | nil => exact fun _ => ⟨true, rfl, by simp⟩
  | cons j rounds induction =>
      intro below
      obtain ⟨first, tested, meaning⟩ := decides j (below j List.mem_cons_self)
      obtain ⟨result, rest, all⟩ :=
        induction fun later member => below later (List.mem_cons_of_mem j member)
      cases first with
      | true => exact ⟨result, by simp [List.allM, tested, rest], by simp [all, ← meaning]⟩
      | false => exact ⟨false, by simp [List.allM, tested], by simp [← meaning]⟩

/-- A range is covered by its front and by the rest, counted from where the front ends. -/
theorem forall_lt_iff_of_le {count front : Nat} (ordered : front ≤ count) {property : Nat → Prop} :
    (∀ k < count, property k) ↔
      (∀ j < count - front, property (j + front)) ∧ ∀ j < front, property j := by
  constructor
  · exact fun all => ⟨fun j below => all (j + front) (by omega), fun j below => all j (by omega)⟩
  · rintro ⟨rest, first⟩ k within
    by_cases below : k < front
    · exact first k below
    · have tested := rest (k - front) (by omega)
      rwa [Nat.sub_add_cancel (Nat.le_of_not_lt below)] at tested

end BoostTest
