import Mathlib.Logic.Relation

/-! Forward simulation between two transition systems. -/

namespace Buh.Library.Simulation

variable {α β : Type*} {step : α → α → Prop} {step' : β → β → Prop} {related : α → β → Prop}

/-- When every step from related states can be answered, so can every run. -/
theorem simulates_run (answers : ∀ ⦃a a' b⦄, related a b → step a a' → ∃ b', step' b b' ∧ related a' b')
    {a a' : α} {b : β} (start : related a b) (run : Relation.ReflTransGen step a a') :
    ∃ b', Relation.ReflTransGen step' b b' ∧ related a' b' := by
  induction run with
  | refl => exact ⟨b, .refl, start⟩
  | tail _ last ih =>
    obtain ⟨middle, done, here⟩ := ih
    obtain ⟨next, answered, there⟩ := answers here last
    exact ⟨next, done.tail answered, there⟩

end Buh.Library.Simulation
