-- SUMMARY: Conversion of unsigned numbers to a 32-bit signed one.
import Mathlib.Algebra.Group.Int.Defs
import Mathlib.Algebra.Group.Nat.Defs

/-! # Signed 32-bit numbers -/

/-- `(int) x`: the value modulo 2^32 that lies in the range of `int`. -/
def asInt32 (x : Nat) : Int :=
  if x % 2 ^ 32 < 2 ^ 31 then (x % 2 ^ 32 : Nat) else (x % 2 ^ 32 : Nat) - 2 ^ 32

theorem asInt32_of_lt {x : Nat} (h : x < 2 ^ 31) : asInt32 x = x := by
  rw [asInt32]
  split <;> omega

/-- The sign is bit 31. -/
theorem asInt32_neg_iff {x : Nat} : asInt32 x < 0 ↔ 2 ^ 31 ≤ x % 2 ^ 32 := by
  rw [asInt32]
  split <;> omega

theorem asInt32_le (x : Nat) : asInt32 x ≤ x := by
  rw [asInt32]
  split <;> omega

theorem lt_of_asInt32_pos {x : Nat} (hx : x < 2 ^ 32) (h : 0 < asInt32 x) : x < 2 ^ 31 := by
  rw [asInt32] at h
  split at h <;> omega
