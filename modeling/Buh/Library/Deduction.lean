import Mathlib.Data.Set.Basic

/-! Deduction from a set of known facts under inference rules, and the way to show
that a fact stays out of reach: a set that every rule can only enter from itself, and
that holds nothing known, is never entered. -/

namespace Buh.Library.Deduction

variable {Fact : Type*}

inductive Derivable (Rule : List Fact → Fact → Prop) (known : Set Fact) : Fact → Prop where
  | known {fact : Fact} (member : fact ∈ known) : Derivable Rule known fact
  | infer {premises : List Fact} {fact : Fact} (rule : Rule premises fact)
      (each : ∀ premise ∈ premises, Derivable Rule known premise) : Derivable Rule known fact

/-- Every rule with a conclusion in the set has a premise in it. -/
def Guarded (Rule : List Fact → Fact → Prop) (blocked : Set Fact) : Prop :=
  ∀ premises fact, Rule premises fact → fact ∈ blocked → ∃ premise ∈ premises, premise ∈ blocked

variable {Rule : List Fact → Fact → Prop} {known blocked : Set Fact} {fact : Fact}

theorem Guarded.not_derivable (guarded : Guarded Rule blocked) (apart : ∀ fact ∈ known, fact ∉ blocked)
    (inside : fact ∈ blocked) : ¬Derivable Rule known fact := by
  intro derivable
  induction derivable with
  | known member => exact apart _ member inside
  | infer rule each ih =>
    obtain ⟨premise, member, blockedPremise⟩ := guarded _ _ rule inside
    exact ih premise member blockedPremise

end Buh.Library.Deduction
