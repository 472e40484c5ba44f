import Mathlib.Tactic.SplitIfs

/-! Sequences of calls each of which may fail. A sequence succeeds when all of its calls
do, and the rules peel it apart from the front. -/

namespace Buh.Library.Fallible

variable {ε ε' α β : Type}

theorem bind_eq_ok {first : Except ε α} {next : α → Except ε β} {result : β} :
    (first >>= next) = .ok result ↔ ∃ value, first = .ok value ∧ next value = .ok result := by
  cases first <;> simp [bind, Except.bind]

theorem map_eq_ok {first : Except ε α} {f : α → β} {result : β} :
    first.map f = .ok result ↔ ∃ value, first = .ok value ∧ f value = result := by
  cases first <;> simp [Except.map]

theorem bind_eq_error {first : Except ε α} {next : α → Except ε β} {e : ε} :
    (first >>= next) = .error e ↔ first = .error e ∨ ∃ value, first = .ok value ∧ next value = .error e := by
  cases first <;> simp [bind, Except.bind]

/-- A failed traversal failed at one of its elements. -/
theorem mapM_eq_error {f : α → Except ε β} {l : List α} {e : ε} (failed : l.mapM f = .error e) :
    ∃ a ∈ l, f a = .error e := by
  induction l with
  | nil => cases failed
  | cons first rest ih =>
    rw [List.mapM_cons] at failed
    rcases bind_eq_error.mp failed with here | ⟨_, _, later⟩
    · exact ⟨first, List.mem_cons_self, here⟩
    · rcases bind_eq_error.mp later with there | ⟨_, _, done⟩
      · obtain ⟨a, member, fails⟩ := ih there
        exact ⟨a, List.mem_cons_of_mem _ member, fails⟩
      · cases done

/-- An error in other words is still an error. -/
theorem mapError_eq_ok {first : Except ε α} {f : ε → ε'} {result : α} :
    first.mapError f = .ok result ↔ first = .ok result := by
  cases first <;> simp [Except.mapError]

/-- A guard of the source, `if bad { return Err(e) }`. -/
theorem guard_eq_ok {bad : Prop} [Decidable bad] {e : ε} {skipped : PUnit → Except ε α} {rest : Except ε α} {result : α} :
    (if bad then throw e >>= skipped else rest) = .ok result ↔ ¬bad ∧ rest = .ok result := by
  split_ifs with holds
  · constructor
    · intro thrown
      cases thrown
    · exact fun both => absurd holds both.1
  · exact (and_iff_right holds).symm

end Buh.Library.Fallible
