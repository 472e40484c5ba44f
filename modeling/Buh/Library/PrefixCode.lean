import Mathlib.Tactic

/-! Codes that can be read off the front of a longer string in one way only.
The combinators below are the ways a serialiser puts such codes together: one
after the other, a length in front of raw content, and a list of items. -/

namespace Buh.Library.PrefixCode

variable {α β γ : Type}

/-- Whatever follows the code, the value and the remainder are both determined. -/
def PrefixFree (code : α → List γ) : Prop :=
  ∀ ⦃first second : α⦄ ⦃rest other : List γ⦄,
    code first ++ rest = code second ++ other → first = second ∧ rest = other

theorem PrefixFree.injective {code : α → List γ} (free : PrefixFree code) :
    Function.Injective code := by
  intro first second same
  have ends : code first ++ [] = code second ++ [] := by rw [same]
  exact (free ends).1

theorem PrefixFree.append {left : α → List γ} {right : β → List γ}
    (leftFree : PrefixFree left) (rightFree : PrefixFree right) :
    PrefixFree (fun pair : α × β => left pair.1 ++ right pair.2) := by
  rintro ⟨a, b⟩ ⟨c, d⟩ rest other same
  simp only [List.append_assoc] at same
  obtain ⟨firsts, tails⟩ := leftFree same
  obtain ⟨seconds, rests⟩ := rightFree tails
  exact ⟨Prod.ext firsts seconds, rests⟩

/-- Reading a code through an injective renaming of its values. -/
theorem PrefixFree.comp {code : β → List γ} (free : PrefixFree code) {view : α → β}
    (injective : Function.Injective view) : PrefixFree (fun value => code (view value)) := by
  intro first second rest other same
  obtain ⟨views, rests⟩ := free same
  exact ⟨injective views, rests⟩

/-- Raw content behind a self-delimiting length. -/
theorem PrefixFree.lengthPrefixed {length : Nat → List γ} (free : PrefixFree length) :
    PrefixFree (fun content : List γ => length content.length ++ content) := by
  intro first second rest other same
  simp only [List.append_assoc] at same
  obtain ⟨lengths, tails⟩ := free same
  exact List.append_inj tails lengths

/-- A list of items is determined by the concatenation of their codes as soon as
no item has the empty code. -/
theorem PrefixFree.flatMap_injective {code : α → List γ} (free : PrefixFree code)
    (nonempty : ∀ value, code value ≠ []) :
    Function.Injective (fun items : List α => items.flatMap code) := by
  intro first
  induction first with
  | nil =>
    intro second same
    cases second with
    | nil => rfl
    | cons item rest =>
      simp only [List.flatMap_nil, List.flatMap_cons] at same
      exact False.elim (nonempty item (List.append_eq_nil_iff.mp same.symm).1)
  | cons head tail ih =>
    intro second same
    cases second with
    | nil =>
      simp only [List.flatMap_nil, List.flatMap_cons] at same
      exact False.elim (nonempty head (List.append_eq_nil_iff.mp same).1)
    | cons item rest =>
      simp only [List.flatMap_cons] at same
      obtain ⟨heads, tails⟩ := free same
      rw [heads, ih tails]

end Buh.Library.PrefixCode
