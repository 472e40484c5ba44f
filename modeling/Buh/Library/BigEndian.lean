import Mathlib.Tactic

/-! Fixed-width big-endian integers as byte strings. -/

namespace Buh.Library.BigEndian

def beBytes : Nat → Nat → List UInt8
  | 0, _ => []
  | width + 1, value => beBytes width (value / 256) ++ [UInt8.ofNat value]

def beValue (bytes : List UInt8) : Nat :=
  bytes.foldl (fun value byte => value * 256 + byte.toNat) 0

@[simp] theorem beBytes_length (width value : Nat) : (beBytes width value).length = width := by
  induction width generalizing value with
  | zero => rfl
  | succ width ih => simp [beBytes, ih]

theorem beValue_beBytes (width value : Nat) : beValue (beBytes width value) = value % 256 ^ width := by
  induction width generalizing value with
  | zero => simp [beBytes, beValue, Nat.mod_one]
  | succ width ih =>
    have step : beValue (beBytes width (value / 256) ++ [UInt8.ofNat value]) =
        beValue (beBytes width (value / 256)) * 256 + value % 256 := by
      simp [beValue, List.foldl_append]
    calc
      _ = beValue (beBytes width (value / 256)) * 256 + value % 256 := step
      _ = value / 256 % 256 ^ width * 256 + value % 256 := by rw [ih]
      _ = value % (256 * 256 ^ width) := by rw [Nat.mod_mul, Nat.add_comm, Nat.mul_comm]
      _ = value % 256 ^ (width + 1) := by rw [pow_succ, Nat.mul_comm]

theorem beBytes_inj {width value other : Nat} (valueFits : value < 256 ^ width)
    (otherFits : other < 256 ^ width) (same : beBytes width value = beBytes width other) :
    value = other := by
  have values := congrArg beValue same
  rwa [beValue_beBytes, beValue_beBytes, Nat.mod_eq_of_lt valueFits,
    Nat.mod_eq_of_lt otherFits] at values

end Buh.Library.BigEndian
