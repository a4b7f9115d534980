-- SUMMARY: Packed decimal digits: two digits to a byte, an odd last one with a zero behind it, and back.
import LinuxOta.Base.Bytes

/-! # Packed decimals -/

namespace Bcd

/-- The character of a decimal digit. -/
def IsDigit (c : UInt8) : Prop := 0x30 ≤ c ∧ c ≤ 0x39

instance (c : UInt8) : Decidable (IsDigit c) := inferInstanceAs (Decidable (_ ∧ _))

/-- Two digits in a byte, the first one in the high half. -/
def pack (hi lo : UInt8) : UInt8 := (hi - 0x30) <<< 4 ||| (lo - 0x30)

/-- The digits in a byte. -/
def digits (b : UInt8) : Bytes := [(b >>> 4 &&& 0x0f) + 0x30, (b &&& 0x0f) + 0x30]

/-- A string of digits, packed. -/
def encode : Bytes → Bytes
  | [] => []
  | [c] => [pack c 0x30]
  | hi :: lo :: s => pack hi lo :: encode s

/-- The digits of packed bytes. -/
def decode (bs : Bytes) : Bytes := bs.flatMap digits

@[simp] theorem decode_nil : decode [] = [] := rfl
@[simp] theorem decode_cons (b : UInt8) (bs : Bytes) : decode (b :: bs) = digits b ++ decode bs := rfl

theorem decode_length (bs : Bytes) : (decode bs).length = 2 * bs.length := by
  induction bs with
  | nil => rfl
  | cons b bs ih =>
    rw [decode_cons, List.length_append, ih, List.length_cons, digits, List.length_cons,
      List.length_singleton]
    omega

theorem encode_length (s : Bytes) : (encode s).length = (s.length + 1) / 2 := by
  induction s using encode.induct with
  | case1 => rfl
  | case2 c => simp [encode]
  | case3 hi lo s ih =>
    rw [encode, List.length_cons, ih, List.length_cons, List.length_cons]
    omega

private theorem digits_pack_below : ∀ n < 10, ∀ m < 10,
    digits (pack (UInt8.ofNat (48 + n)) (UInt8.ofNat (48 + m))) =
      [UInt8.ofNat (48 + n), UInt8.ofNat (48 + m)] := by
  decide +kernel

theorem IsDigit.exists_eq {c : UInt8} (h : IsDigit c) : ∃ n < 10, c = UInt8.ofNat (48 + n) := by
  have hge : 48 ≤ c.toNat := UInt8.le_iff_toNat_le.mp h.1
  have hle : c.toNat ≤ 57 := UInt8.le_iff_toNat_le.mp h.2
  refine ⟨c.toNat - 48, by omega, ?_⟩
  rw [Nat.add_sub_cancel' hge, UInt8.ofNat_toNat]

/-- Digits that were packed are unpacked again. -/
theorem digits_pack {hi lo : UInt8} (hhi : IsDigit hi) (hlo : IsDigit lo) :
    digits (pack hi lo) = [hi, lo] := by
  obtain ⟨n, hn, rfl⟩ := hhi.exists_eq
  obtain ⟨m, hm, rfl⟩ := hlo.exists_eq
  exact digits_pack_below n hn m hm

/-- Unpacking gives the string back, with a zero behind a string of odd length. -/
theorem decode_encode {s : Bytes} (hs : ∀ c ∈ s, IsDigit c) :
    decode (encode s) = s ++ List.replicate (s.length % 2) 0x30 := by
  induction s using encode.induct with
  | case1 => rfl
  | case2 c => exact digits_pack (hs c List.mem_cons_self) (by decide)
  | case3 hi lo s ih =>
    have hpair := digits_pack (hs hi (by simp)) (hs lo (by simp))
    have hparity : (hi :: lo :: s).length % 2 = s.length % 2 := Nat.add_mod_right s.length 2
    rw [encode, decode_cons, hpair, ih fun c hc => hs c (by simp [hc]), hparity]
    rfl

end Bcd
