-- SUMMARY: The C types whose width is that of `long`.
import LinuxOta.Base.Int32

namespace LinuxOta

/-! # The width of `long` -/

/-- The width of `long`, and with it of `size_t`, `ssize_t` and the `off_t` of `lseek`. -/
inductive LongWidth where
  /-- On the ARM target of `CMakeLists.txt`. -/
  | bits32
  | bits64
  deriving DecidableEq, Repr

/-- `(long) x`. -/
def LongWidth.cast : LongWidth → Nat → Int
  | bits32, x => asInt32 x
  | bits64, x => if x % 2 ^ 64 < 2 ^ 63 then (x % 2 ^ 64 : Nat) else (x % 2 ^ 64 : Nat) - 2 ^ 64

/-- `LONG_MAX`. -/
def LongWidth.longMax : LongWidth → Int
  | bits32 => 2 ^ 31 - 1
  | bits64 => 2 ^ 63 - 1

/-- The number of bits of `long`. -/
def LongWidth.bits : LongWidth → Nat
  | bits32 => 32
  | bits64 => 64

/-- `(size_t) x`. -/
def LongWidth.toSize (w : LongWidth) (x : Int) : Nat := (x % 2 ^ w.bits).toNat

/-- `(long) x`, for the sum of a `long` and an unsigned number. -/
def LongWidth.wrap (w : LongWidth) (x : Int) : Int := x.bmod (2 ^ w.bits)

theorem LongWidth.toSize_of_lt (w : LongWidth) {x : Nat} (h : x < 2 ^ 32) : w.toSize x = x := by
  cases w <;> simp only [toSize, bits] <;> omega

theorem LongWidth.wrap_of_mem (w : LongWidth) {x : Int} (hge : -w.longMax - 1 ≤ x) (hle : x ≤ w.longMax) :
    w.wrap x = x := by
  cases w <;> simp only [longMax, wrap, bits, Int.bmod_eq_emod] at * <;> split <;> omega

theorem LongWidth.wrap_le (w : LongWidth) (x : Int) : w.wrap x ≤ w.longMax := by
  cases w <;> simp only [longMax, wrap, bits, Int.bmod_eq_emod] <;> split <;> omega

/-- Wrapping changes a number by a whole turn or not at all. -/
theorem LongWidth.wrap_eq_self (w : LongWidth) {x : Int} (hge : x ≤ w.wrap x) (hle : w.wrap x ≤ x + 1) :
    w.wrap x = x := by
  revert hge hle
  cases w <;> simp only [wrap, bits, Int.bmod_eq_emod] <;> split <;> omega

/-- Below the sign bit the wrapped number is the remainder. -/
theorem LongWidth.wrap_eq_iff (w : LongWidth) {x v : Nat} (hv : v < 2 ^ 31) :
    w.wrap x = v ↔ x % 2 ^ w.bits = v := by
  cases w <;> simp only [wrap, bits, Int.bmod_eq_emod] <;> split <;> omega

theorem LongWidth.wrap_range_iff (w : LongWidth) {x b : Nat} (hb : b ≤ 2 ^ 31) :
    0 ≤ w.wrap x ∧ w.wrap x < b ↔ x % 2 ^ w.bits < b := by
  cases w <;> simp only [wrap, bits, Int.bmod_eq_emod] <;> split <;> omega

theorem LongWidth.cast_of_lt (w : LongWidth) {x : Nat} (h : x < 2 ^ 31) : w.cast x = x := by
  cases w with
  | bits32 => exact asInt32_of_lt h
  | bits64 =>
    rw [LongWidth.cast]
    split <;> omega

theorem LongWidth.cast_of_le (w : LongWidth) {x : Nat} (h : (x : Int) ≤ w.longMax) : w.cast x = x := by
  cases w with
  | bits32 => exact asInt32_of_lt (by simp only [longMax] at h; omega)
  | bits64 =>
    rw [LongWidth.cast]
    simp only [longMax] at h
    split <;> omega

end LinuxOta
