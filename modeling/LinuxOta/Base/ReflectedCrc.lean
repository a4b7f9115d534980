-- SUMMARY: Reflected cyclic redundancy checks: the bit-by-bit definition, its linearity, and the table-driven byte step.
import Mathlib.Data.BitVec
import Mathlib.Data.List.Basic

/-! # Reflected CRCs

The register shifts towards its least significant bit, and `poly` is added
whenever a one falls out. The definition works bit by bit; `tableFeed` is the
usual implementation that takes a byte at a time from a table of 256 words. -/

namespace ReflectedCrc

variable {w : Nat} (poly : BitVec w)

/-- One shift of the register. -/
def shiftBit (r : BitVec w) : BitVec w :=
  if r.getLsbD 0 then (r >>> 1) ^^^ poly else r >>> 1

def shiftBits : Nat → BitVec w → BitVec w
  | 0, r => r
  | n + 1, r => shiftBits n (shiftBit poly r)

/-- Add one byte, least significant bit first. -/
def feed (r : BitVec w) (b : UInt8) : BitVec w :=
  shiftBits poly 8 (r ^^^ b.toBitVec.setWidth w)

/-- The CRC of a byte string, with initial and final complement. -/
def checksum (init : BitVec w) (bytes : List UInt8) : BitVec w :=
  ~~~ (bytes.foldl (feed poly) (~~~ init))

/-- Add one byte through a table of the 256 possible low bytes. -/
def tableFeed (tab : List (BitVec w)) (r : BitVec w) (b : UInt8) : BitVec w :=
  tab.getD ((r ^^^ b.toBitVec.setWidth w) &&& 0xFF#w).toNat 0 ^^^ (r >>> 8)

/-! ## Linearity -/

theorem shiftBit_xor (r s : BitVec w) :
    shiftBit poly (r ^^^ s) = shiftBit poly r ^^^ shiftBit poly s := by
  simp only [shiftBit, BitVec.getLsbD_xor, BitVec.ushiftRight_xor_distrib]
  cases r.getLsbD 0 <;> cases s.getLsbD 0 <;> simp
  · ac_rfl
  · ac_rfl
  · -- both registers drop a one, so `poly` is added twice
    rw [BitVec.xor_assoc, ← BitVec.xor_assoc poly, BitVec.xor_comm poly, BitVec.xor_assoc,
      BitVec.xor_self, BitVec.xor_zero]

theorem shiftBits_xor (n : Nat) (r s : BitVec w) :
    shiftBits poly n (r ^^^ s) = shiftBits poly n r ^^^ shiftBits poly n s := by
  induction n generalizing r s with
  | zero => rfl
  | succ n ih => simp only [shiftBits, shiftBit_xor, ih]

/-- While only zeros fall out, shifting is a plain shift. -/
theorem shiftBits_of_low_zero (n : Nat) (r : BitVec w) (h : ∀ i < n, r.getLsbD i = false) :
    shiftBits poly n r = r >>> n := by
  induction n generalizing r with
  | zero => simp [shiftBits]
  | succ n ih =>
    have hbit : shiftBit poly r = r >>> 1 := by simp [shiftBit, h 0 (by omega)]
    have hlow : ∀ i < n, (r >>> 1).getLsbD i = false := by
      intro i hi
      rw [BitVec.getLsbD_ushiftRight]
      exact h (1 + i) (by omega)
    rw [shiftBits, hbit, ih _ hlow, ← BitVec.shiftRight_add, Nat.add_comm]

/-! ## The table -/

private theorem getLsbD_lowByte (i : Nat) :
    (0xFF#w).getLsbD i = (decide (i < w) && decide (i < 8)) := by
  rw [BitVec.getLsbD_ofNat, show (0xFF : Nat) = 2 ^ 8 - 1 from rfl, Nat.testBit_two_pow_sub_one]

/-- Eight shifts of a register: those of its low byte, plus the rest moved down. -/
theorem shiftBits_eight (r : BitVec w) :
    shiftBits poly 8 r = shiftBits poly 8 (r &&& 0xFF#w) ^^^ (r >>> 8) := by
  have hsplit : r = (r &&& 0xFF#w) ^^^ (r &&& ~~~ 0xFF#w) := by
    ext i hi
    simp only [BitVec.getElem_xor, BitVec.getElem_and, BitVec.getElem_not]
    cases r[i] <;> cases (0xFF#w)[i] <;> rfl
  have hlow : ∀ i < 8, (r &&& ~~~ 0xFF#w).getLsbD i = false := by
    intro i hi
    by_cases hw : i < w
    · simp [getLsbD_lowByte, hi, hw]
    · simp [hw]
  have hhigh : (r &&& ~~~ 0xFF#w) >>> 8 = r >>> 8 := by
    apply BitVec.eq_of_getLsbD_eq
    intro i _
    simp only [BitVec.getLsbD_ushiftRight, BitVec.getLsbD_and, BitVec.getLsbD_not, getLsbD_lowByte]
    by_cases hw : 8 + i < w
    · simp [hw]
    · simp [BitVec.getLsbD_of_ge r (8 + i) (by omega)]
  conv => lhs; rw [hsplit]
  rw [shiftBits_xor, shiftBits_of_low_zero poly 8 _ hlow, hhigh]

/-- A byte shifted in has left the register after eight shifts. -/
private theorem byte_ushiftRight (b : UInt8) : (b.toBitVec.setWidth w) >>> 8 = 0#w := by
  apply BitVec.eq_of_getLsbD_eq
  intro i hi
  simp [BitVec.getLsbD_ushiftRight, BitVec.getLsbD_setWidth]

/-- With the right table, a byte at a time is the same as bit by bit. -/
theorem tableFeed_eq_feed {tab : List (BitVec w)}
    (htab : ∀ i < 256, tab.getD i 0 = shiftBits poly 8 (BitVec.ofNat w i))
    (r : BitVec w) (b : UInt8) : tableFeed tab r b = feed poly r b := by
  let x := r ^^^ b.toBitVec.setWidth w
  have hx : (x &&& 0xFF#w).toNat < 256 := by
    rw [BitVec.toNat_and, BitVec.toNat_ofNat]
    exact Nat.lt_of_le_of_lt Nat.and_le_right (Nat.lt_of_le_of_lt (Nat.mod_le _ _) (by decide))
  have hrest : x >>> 8 = r >>> 8 := by
    rw [BitVec.ushiftRight_xor_distrib, byte_ushiftRight, BitVec.xor_zero]
  rw [tableFeed, feed, shiftBits_eight, htab _ hx, hrest, BitVec.ofNat_toNat, BitVec.setWidth_eq]

theorem foldl_tableFeed {tab : List (BitVec w)}
    (htab : ∀ i < 256, tab.getD i 0 = shiftBits poly 8 (BitVec.ofNat w i))
    (r : BitVec w) (bytes : List UInt8) :
    bytes.foldl (tableFeed tab) r = bytes.foldl (feed poly) r := by
  rw [funext₂ (tableFeed_eq_feed poly htab)]

end ReflectedCrc
