-- SUMMARY: Digits of a number in a base: printing them, with or without a fixed width, and their value.
import Mathlib.Algebra.Group.Nat.Defs
import Mathlib.Data.List.Basic

/-! # Numerals

Digits are read in either case and printed in lower case. -/

namespace Numerals

/-- The value of a digit or letter. -/
def digitValue (c : Char) : Option Nat :=
  if '0' ≤ c ∧ c ≤ '9' then some (c.toNat - '0'.toNat)
  else if 'a' ≤ c ∧ c ≤ 'z' then some (c.toNat - 'a'.toNat + 10)
  else if 'A' ≤ c ∧ c ≤ 'Z' then some (c.toNat - 'A'.toNat + 10)
  else none

def isDigit (base : Nat) (c : Char) : Bool := (digitValue c).any (· < base)

/-- The value of digits, the highest one first. -/
def value (base : Nat) (cs : List Char) : Nat :=
  cs.foldl (fun n c => n * base + (digitValue c).getD 0) 0

@[simp] theorem value_nil (base : Nat) : value base [] = 0 := rfl

@[simp] theorem value_append_singleton (base : Nat) (cs : List Char) (c : Char) :
    value base (cs ++ [c]) = value base cs * base + (digitValue c).getD 0 := by
  simp [value]

theorem digitValue_digitChar : ∀ d < 16, digitValue d.digitChar = some d := by decide

variable {base : Nat}

theorem isDigit_digitChar (hbase : base ≤ 16) {d : Nat} (hd : d < base) :
    isDigit base d.digitChar = true := by
  simp [isDigit, digitValue_digitChar d (by omega), hd]

/-! ## Printing -/

theorem value_toDigits (hpos : 1 < base) (hbase : base ≤ 16) (n : Nat) :
    value base (Nat.toDigits base n) = n := by
  induction n using Nat.strongRecOn with
  | _ n ih =>
    rcases Nat.lt_or_ge n base with hlt | hge
    · rw [Nat.toDigits_of_lt_base hlt]
      simp [value, digitValue_digitChar n (by omega)]
    · have hmod := Nat.mod_lt n (Nat.lt_trans Nat.zero_lt_one hpos)
      rw [Nat.toDigits_of_base_le hpos hge, value_append_singleton,
        ih _ (Nat.div_lt_self (by omega) hpos), digitValue_digitChar _ (by omega), Option.getD_some,
        Nat.div_add_mod']

theorem isDigit_of_mem_toDigits (hpos : 1 < base) (hbase : base ≤ 16) (n : Nat) :
    ∀ c ∈ Nat.toDigits base n, isDigit base c = true := by
  induction n using Nat.strongRecOn with
  | _ n ih =>
    rcases Nat.lt_or_ge n base with hlt | hge
    · rw [Nat.toDigits_of_lt_base hlt]
      exact List.forall_mem_singleton.mpr (isDigit_digitChar hbase hlt)
    · have hmod := Nat.mod_lt n (Nat.lt_trans Nat.zero_lt_one hpos)
      rw [Nat.toDigits_of_base_le hpos hge]
      exact List.forall_mem_append.mpr ⟨ih _ (Nat.div_lt_self (by omega) hpos),
        List.forall_mem_singleton.mpr (isDigit_digitChar hbase hmod)⟩

/-- The lowest `width` digits, padded with zeros. -/
def fixed (base : Nat) : (width n : Nat) → List Char
  | 0, _ => []
  | width + 1, n => fixed base width (n / base) ++ [(n % base).digitChar]

@[simp] theorem fixed_length (base width n : Nat) : (fixed base width n).length = width := by
  induction width generalizing n with
  | zero => rfl
  | succ width ih => rw [fixed, List.length_append, ih, List.length_singleton]

theorem value_fixed (hpos : 0 < base) (hbase : base ≤ 16) {width n : Nat} (hn : n < base ^ width) :
    value base (fixed base width n) = n := by
  induction width generalizing n with
  | zero =>
    rw [Nat.pow_zero, Nat.lt_one_iff] at hn
    rw [hn, fixed, value_nil]
  | succ width ih =>
    have hmod := Nat.mod_lt n hpos
    have hdiv : n / base < base ^ width := by
      rw [Nat.div_lt_iff_lt_mul hpos, ← Nat.pow_succ]
      exact hn
    rw [fixed, value_append_singleton, ih hdiv, digitValue_digitChar _ (by omega), Option.getD_some,
      Nat.div_add_mod']

theorem isDigit_of_mem_fixed (hpos : 0 < base) (hbase : base ≤ 16) (width n : Nat) :
    ∀ c ∈ fixed base width n, isDigit base c = true := by
  induction width generalizing n with
  | zero => simp [fixed]
  | succ width ih =>
    rw [fixed]
    exact List.forall_mem_append.mpr ⟨ih _,
      List.forall_mem_singleton.mpr (isDigit_digitChar hbase (Nat.mod_lt n hpos))⟩

end Numerals
