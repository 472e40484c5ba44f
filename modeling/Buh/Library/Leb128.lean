import Mathlib.Tactic

/-! Numbers as groups of seven bits, the low ones first. Every byte of a group but its last
has the top bit set, so a group can be split off the front of a string without reading it.
A group is overlong when its last byte adds nothing to its value. -/

namespace Buh.Library.Leb128

/-- The first group of a string, and what follows it. -/
def splitGroup : List UInt8 → List UInt8 × List UInt8
  | [] => ([], [])
  | byte :: rest =>
    if byte.toNat < 128 then ([byte], rest) else (byte :: (splitGroup rest).1, (splitGroup rest).2)

def groupValue : List UInt8 → Nat
  | [] => 0
  | byte :: rest => byte.toNat % 128 + 128 * groupValue rest

/-- More than one byte, the last of them zero. -/
def overlong (group : List UInt8) : Bool := decide (1 < group.length) && decide (group.getLast? = some 0)

inductive Grouped : List UInt8 → Prop
  | last {byte : UInt8} (small : byte.toNat < 128) : Grouped [byte]
  | more {byte : UInt8} {rest : List UInt8} (large : ¬byte.toNat < 128) (group : Grouped rest) : Grouped (byte :: rest)

theorem splitGroup_length (bytes : List UInt8) (some_ : bytes ≠ []) : (splitGroup bytes).2.length < bytes.length := by
  induction bytes with
  | nil => exact absurd rfl some_
  | cons byte rest ih =>
    rw [splitGroup]
    split_ifs
    · exact Nat.lt_succ_self _
    · cases rest with
      | nil => exact Nat.zero_lt_succ _
      | cons next rest => exact (ih (List.cons_ne_nil _ _)).trans (Nat.lt_succ_self _)

theorem splitGroup_length_le (bytes : List UInt8) : (splitGroup bytes).2.length ≤ bytes.length := by
  cases bytes with
  | nil => exact le_rfl
  | cons byte rest => exact (splitGroup_length _ (List.cons_ne_nil _ _)).le

theorem Grouped.ne_nil {group : List UInt8} (whole : Grouped group) : group ≠ [] := by
  cases whole <;> exact List.cons_ne_nil _ _

theorem Grouped.split {group : List UInt8} (whole : Grouped group) (rest : List UInt8) :
    splitGroup (group ++ rest) = (group, rest) := by
  induction whole with
  | last small => simp [splitGroup, small]
  | more large _ ih => simp [splitGroup, large, ih]

/-- A string begins with at most one group. -/
theorem Grouped.append_inj {first second rest other : List UInt8} (whole : Grouped first) (whole' : Grouped second)
    (same : first ++ rest = second ++ other) : first = second ∧ rest = other := by
  have split := whole.split rest
  rw [same, whole'.split other] at split
  exact ⟨(Prod.mk.inj split).1.symm, (Prod.mk.inj split).2.symm⟩

/-- The last byte of a group of value zero is zero. -/
theorem Grouped.getLast_of_value_eq_zero {group : List UInt8} (whole : Grouped group) (zero : groupValue group = 0) :
    group.getLast? = some 0 := by
  induction whole with
  | @last byte small =>
    have none_ : byte.toNat = (0 : UInt8).toNat := by
      simp only [groupValue] at zero
      change byte.toNat = 0
      omega
    rw [UInt8.toNat_inj.mp none_]
    rfl
  | @more byte rest large group ih =>
    have rest_zero : groupValue rest = 0 := by
      simp only [groupValue] at zero
      omega
    rw [List.getLast?_cons_of_ne_nil group.ne_nil]
    exact ih rest_zero

/-- Below a byte with its top bit set, a group is overlong just when it is zero or was so. -/
theorem overlong_more {byte : UInt8} {rest : List UInt8} (group : Grouped rest) :
    overlong (byte :: rest) = true ↔ groupValue rest = 0 ∨ overlong rest = true := by
  have longer : 1 < (byte :: rest).length := by
    have some_ := List.length_pos_iff.mpr group.ne_nil
    rw [List.length_cons]
    omega
  rw [overlong, overlong, List.getLast?_cons_of_ne_nil group.ne_nil, Bool.and_eq_true, Bool.and_eq_true,
    decide_eq_true_eq, decide_eq_true_eq, decide_eq_true_eq, and_iff_right longer]
  constructor
  · intro zero
    by_cases long : 1 < rest.length
    · exact Or.inr ⟨long, zero⟩
    · refine Or.inl ?_
      cases group with
      | last small =>
        cases zero
        rfl
      | more large group =>
        have some_ := List.length_pos_iff.mpr group.ne_nil
        rw [List.length_cons] at long
        omega
  · rintro (zero | ⟨_, zero⟩)
    · exact group.getLast_of_value_eq_zero zero
    · exact zero

end Buh.Library.Leb128
