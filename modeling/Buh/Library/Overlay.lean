import Mathlib.Tactic

/-! A store that a numbered sequence of writes goes over, where some of the writes may be
left out. What is read back depends on the writes that were made, not on when values were
taken out again. -/

namespace Buh.Library.Overlay
open scoped Classical

variable {κ ν : Type*}

/-- The store after the first `count` writes, without those in `lost`. -/
noncomputable def overlay (base : κ → Option ν) (slot : Nat → κ) (value : Nat → ν) (lost : Nat → Prop) :
    Nat → κ → Option ν
  | 0, key => base key
  | count + 1, key =>
    if key = slot count ∧ ¬lost count then some (value count) else overlay base slot value lost count key

variable {base base' : κ → Option ν} {slot : Nat → κ} {value : Nat → ν} {lost lost' : Nat → Prop} {count : Nat}
  {key key' : κ} {found : ν}

theorem overlay_write (made : key = slot count ∧ ¬lost count) :
    overlay base slot value lost (count + 1) key = some (value count) := if_pos made

theorem overlay_pass (other : ¬(key = slot count ∧ ¬lost count)) :
    overlay base slot value lost (count + 1) key = overlay base slot value lost count key := if_neg other

theorem overlay_source (read : overlay base slot value lost count key = some found) :
    base key = some found ∨ ∃ i < count, key = slot i ∧ found = value i ∧ ¬lost i := by
  induction count with
  | zero => exact .inl read
  | succ count ih =>
    by_cases last : key = slot count ∧ ¬lost count
    · rw [overlay_write last] at read
      cases read
      exact .inr ⟨count, Nat.lt_succ_self _, last.1, rfl, last.2⟩
    · rw [overlay_pass last] at read
      rcases ih read with old | ⟨i, small, write⟩
      · exact .inl old
      · exact .inr ⟨i, Nat.lt_succ_of_lt small, write⟩

theorem overlay_congr (same : ∀ i < count, lost i ↔ lost' i) :
    overlay base slot value lost count = overlay base slot value lost' count := by
  funext key
  induction count with
  | zero => rfl
  | succ count ih =>
    rw [overlay, overlay, ih (fun i small => same i (Nat.lt_succ_of_lt small)), same count (Nat.lt_succ_self _)]

/-- Where no value is written twice or over itself, none is read back from two places. -/
theorem overlay_distinct (apart : ∀ key key' found, base key = some found → base key' = some found → key = key')
    (injective : Function.Injective value) (new : ∀ key i, base key ≠ some (value i))
    (read : overlay base slot value lost count key = some found)
    (read' : overlay base slot value lost count key' = some found) : key = key' := by
  rcases overlay_source read with old | ⟨i, _, rfl, rfl, _⟩ <;>
    rcases overlay_source read' with old' | ⟨j, _, rfl, same, _⟩
  · exact apart key key' found old old'
  · exact absurd (same ▸ old) (new key j)
  · exact absurd old' (new key' i)
  · rw [injective same]

/-- Values may be taken out before the writes or after them, as long as the writes do not
put them back. -/
theorem overlay_remove (slot : Nat → κ) (lost : Nat → Prop) {gone : ν → Prop}
    (removed : ∀ key found, base' key = some found ↔ base key = some found ∧ ¬gone found)
    (kept : ∀ i < count, ¬gone (value i)) (read : κ) (found : ν) :
    overlay base' slot value lost count read = some found ↔
      overlay base slot value lost count read = some found ∧ ¬gone found := by
  induction count with
  | zero => exact removed read found
  | succ count ih =>
    by_cases last : read = slot count ∧ ¬lost count
    · rw [overlay_write last, overlay_write last]
      constructor
      · intro same
        cases same
        exact ⟨rfl, kept count (Nat.lt_succ_self _)⟩
      · exact fun both => both.1
    · rw [overlay_pass last, overlay_pass last]
      exact ih (fun i small => kept i (Nat.lt_succ_of_lt small))

end Buh.Library.Overlay
