-- SUMMARY: Lower-case hexadecimal of byte strings: its digits by position, and reading a pair of digits back.
import LinuxOta.Base.Bytes
import LinuxOta.Base.Scanf

/-! # Hexadecimal digests -/

namespace Hex

/-- The lower-case digit of a value below 16. -/
def digit (n : UInt8) : UInt8 :=
  if n < 10 then 0x30 + n else 0x61 + (n - 10)

/-- The two digits of a byte, the higher one first. -/
def pair (b : UInt8) : Bytes := [digit (b >>> 4), digit (b &&& 0x0f)]

/-- A byte string in hexadecimal. -/
def encode (bs : Bytes) : Bytes := bs.flatMap pair

@[simp] theorem encode_nil : encode [] = [] := rfl
@[simp] theorem encode_cons (b : UInt8) (bs : Bytes) : encode (b :: bs) = pair b ++ encode bs := rfl

@[simp] theorem encode_length (bs : Bytes) : (encode bs).length = 2 * bs.length := by
  induction bs with
  | nil => rfl
  | cons b bs ih =>
    rw [encode_cons, List.length_append, ih, List.length_cons]
    simp only [pair, List.length_cons, List.length_nil]
    omega

/-- The digits of byte `k` are the ones at `2 * k` and behind it. -/
theorem drop_encode {bs : Bytes} {k : Nat} (hk : k < bs.length) :
    (encode bs).drop (2 * k) = pair (bs.getD k 0) ++ (encode bs).drop (2 * (k + 1)) := by
  induction bs generalizing k with
  | nil => simp at hk
  | cons b bs ih =>
    cases k with
    | zero => simp [pair]
    | succ k =>
      have htail := ih (Nat.lt_of_succ_lt_succ hk)
      rw [encode_cons, List.getD_cons_succ, Nat.mul_succ, Nat.mul_succ 2 (k + 1)]
      exact htail

/-- A string of twice the length is the encoding when its digits are. -/
theorem eq_encode_iff {bs s : Bytes} (hlen : s.length = 2 * bs.length) :
    s = encode bs ↔ ∀ k < bs.length,
      s.getD (2 * k) 0 = digit (bs.getD k 0 >>> 4) ∧ s.getD (2 * k + 1) 0 = digit (bs.getD k 0 &&& 0x0f) := by
  have hdigits : ∀ k < bs.length, (encode bs).getD (2 * k) 0 = digit (bs.getD k 0 >>> 4) ∧
      (encode bs).getD (2 * k + 1) 0 = digit (bs.getD k 0 &&& 0x0f) := by
    intro k hk
    have hdrop := drop_encode hk
    constructor
    · have hget := congrArg (fun l : Bytes => l.getD 0 0) hdrop
      simpa [pair, List.getD] using hget
    · have hget := congrArg (fun l : Bytes => l.getD 1 0) hdrop
      simpa [pair, List.getD] using hget
  constructor
  · rintro rfl
    exact hdigits
  · intro h
    apply List.ext_getElem (by rw [hlen, encode_length])
    intro i hi hi'
    have hk : i / 2 < bs.length := by omega
    have hget : s.getD i 0 = (encode bs).getD i 0 := by
      rcases Nat.mod_two_eq_zero_or_one i with heven | hodd
      · rw [show i = 2 * (i / 2) by omega, (h _ hk).1, (hdigits _ hk).1]
      · rw [show i = 2 * (i / 2) + 1 by omega, (h _ hk).2, (hdigits _ hk).2]
    rwa [List.getD, List.getD, List.getElem?_eq_getElem hi, List.getElem?_eq_getElem hi'] at hget

/-! ## Reading digits -/

/-- The characters of a byte string. -/
def chars (bs : Bytes) : List Char := bs.map fun b => Char.ofNat b.toNat

/-- `sscanf(s, "%02hhx", ..)`: white space, and a number of at most two characters. -/
def scanByte (s : List Char) : Option UInt8 :=
  (Scanf.scanInt 16 ((s.dropWhile Scanf.isSpace).take 2)).map fun (v, _) => UInt8.ofInt v

private theorem scanByte_pair_digits : ∀ n < 256,
    Scanf.isSpace (Char.ofNat (digit (UInt8.ofNat n >>> 4)).toNat) = false ∧
      '\x00' ∉ chars (pair (UInt8.ofNat n)) ∧ scanByte (chars (pair (UInt8.ofNat n))) = some (UInt8.ofNat n) := by
  decide +kernel

/-- A pair of digits is read back, whatever follows it. -/
theorem scanByte_pair (b : UInt8) (rest : List Char) : scanByte (chars (pair b) ++ rest) = some b := by
  obtain ⟨hspace, -, hscan⟩ := scanByte_pair_digits b.toNat b.toNat_lt
  rw [UInt8.ofNat_toNat] at hspace hscan
  have hdrop : ∀ tail, (chars (pair b) ++ tail).dropWhile Scanf.isSpace = chars (pair b) ++ tail := by
    intro tail
    simp [chars, pair, hspace]
  have hnil := hdrop []
  rw [List.append_nil] at hnil
  rw [scanByte, hnil] at hscan
  rw [scanByte, hdrop]
  exact hscan

theorem not_mem_chars_pair (b : UInt8) : '\x00' ∉ chars (pair b) := by
  have hzero := (scanByte_pair_digits b.toNat b.toNat_lt).2.1
  rwa [UInt8.ofNat_toNat] at hzero

theorem chars_append (a b : Bytes) : chars (a ++ b) = chars a ++ chars b := List.map_append

end Hex
