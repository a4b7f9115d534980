-- SUMMARY: Burst errors under a reflected CRC: bytes as bits, the bit-serial register, and why a short burst changes the checksum.
import LinuxOta.Base.ReflectedCrc

/-! # Burst errors

A register of `w` bits that is fed bit by bit is linear and, for a polynomial with its
top bit set, never forgets a difference. A burst of at most `w` bits is a difference
that the register cannot shift out before it has seen all of it. -/

namespace ReflectedCrc

/-! ## Bytes as bits -/

/-- The bits of a byte, least significant first. -/
def byteBits (b : UInt8) : List Bool :=
  (List.range 8).map b.toBitVec.getLsbD

/-- The bits of a byte string, the bytes in order. -/
def bits (bytes : List UInt8) : List Bool :=
  bytes.flatMap byteBits

@[simp] theorem byteBits_length (b : UInt8) : (byteBits b).length = 8 := by simp [byteBits]

@[simp] theorem bits_nil : bits [] = [] := rfl
@[simp] theorem bits_cons (b : UInt8) (bytes : List UInt8) :
    bits (b :: bytes) = byteBits b ++ bits bytes := rfl

@[simp] theorem bits_append (xs ys : List UInt8) : bits (xs ++ ys) = bits xs ++ bits ys :=
  List.flatMap_append

theorem bits_length (bytes : List UInt8) : (bits bytes).length = 8 * bytes.length := by
  induction bytes with
  | nil => rfl
  | cons b bytes ih =>
    rw [bits_cons, List.length_append, byteBits_length, ih, List.length_cons]
    omega

theorem byteBits_injective : Function.Injective byteBits := by
  intro b c h
  apply UInt8.toBitVec_inj.mp
  apply BitVec.eq_of_getLsbD_eq
  intro i hi
  have hbit : (byteBits b)[i]? = (byteBits c)[i]? := by rw [h]
  simpa [byteBits, hi] using hbit

theorem bits_injective {xs ys : List UInt8} (h : bits xs = bits ys) : xs = ys := by
  induction xs generalizing ys with
  | nil =>
    have hlen := congrArg List.length h
    rw [bits_length, bits_length] at hlen
    exact (List.length_eq_zero_iff.mp (by simpa using hlen.symm)).symm
  | cons x xs ih =>
    cases ys with
    | nil => simp [byteBits] at h
    | cons y ys =>
      obtain ⟨hhead, htail⟩ := List.append_inj h (by simp)
      rw [byteBits_injective hhead, ih htail]

/-- Two byte strings that agree around `xs` and `ys` differ in the bits of these only. -/
theorem window_of_bits_ne {pre xs ys post : List UInt8} (hlen : xs.length = ys.length) {k : Nat}
    (hk : (bits (pre ++ xs ++ post))[k]? ≠ (bits (pre ++ ys ++ post))[k]?) :
    8 * pre.length ≤ k ∧ k < 8 * pre.length + 8 * xs.length := by
  have hpre := bits_length pre
  have hxs := bits_length xs
  have hys := bits_length ys
  simp only [bits_append, List.append_assoc] at hk
  constructor
  · by_contra hlt
    apply hk
    rw [List.getElem?_append_left (by omega), List.getElem?_append_left (by omega)]
  · by_contra hge
    apply hk
    rw [List.getElem?_append_right (by omega), List.getElem?_append_right (by omega),
      List.getElem?_append_right (by omega), List.getElem?_append_right (by omega), hxs, hys, hlen]

/-! ## The bit-serial register -/

variable {w : Nat} (poly : BitVec w)

/-- A single bit in the lowest place. -/
def lowBit (w : Nat) (b : Bool) : BitVec w :=
  (BitVec.ofBool b).setWidth w

/-- Add one bit. -/
def feedBit (r : BitVec w) (b : Bool) : BitVec w :=
  shiftBit poly (r ^^^ lowBit w b)

/-- The word whose bits, from the lowest one on, are the given ones. -/
def wordOf : List Bool → BitVec w
  | [] => 0
  | b :: bs => lowBit w b ^^^ (wordOf bs <<< 1)

theorem lowBit_xor (b c : Bool) : lowBit w b ^^^ lowBit w c = lowBit w (b ^^ c) := by
  cases b <;> cases c <;> simp [lowBit]

@[simp] theorem lowBit_false : lowBit w false = 0#w := by simp [lowBit]

theorem getLsbD_wordOf (bs : List Bool) (i : Nat) :
    (wordOf bs : BitVec w).getLsbD i = (decide (i < w) && bs.getD i false) := by
  induction bs generalizing i with
  | nil => simp [wordOf]
  | cons b bs ih =>
    rw [wordOf, BitVec.getLsbD_xor, BitVec.getLsbD_shiftLeft, lowBit, BitVec.getLsbD_setWidth]
    cases i with
    | zero => by_cases hw : 0 < w <;> simp [hw]
    | succ i =>
      have hhigh : (BitVec.ofBool b).getLsbD (i + 1) = false := BitVec.getLsbD_of_ge _ _ (by omega)
      rw [hhigh, Nat.add_sub_cancel, ih, List.getD_cons_succ]
      by_cases hw : i + 1 < w
      · simp [hw, Nat.lt_of_succ_lt hw]
      · simp [hw]

/-- Shifting out a word that was added to the register is feeding its bits. -/
theorem shiftBits_xor_wordOf (r : BitVec w) {bs : List Bool} (hlen : bs.length ≤ w) :
    shiftBits poly bs.length (r ^^^ wordOf bs) = bs.foldl (feedBit poly) r := by
  induction bs generalizing r with
  | nil => simp [shiftBits, wordOf]
  | cons b bs ih =>
    rw [List.length_cons] at hlen
    -- the later bits wait above the lowest place and move down by one
    have hdown : shiftBit poly (wordOf bs <<< 1) = wordOf bs := by
      have hlow : (wordOf bs <<< 1 : BitVec w).getLsbD 0 = false := by simp
      rw [shiftBit, hlow, if_neg (by simp)]
      apply BitVec.eq_of_getLsbD_eq
      intro i hi
      rw [BitVec.getLsbD_ushiftRight, BitVec.getLsbD_shiftLeft, getLsbD_wordOf, getLsbD_wordOf]
      by_cases hbit : i < bs.length
      · have hroom : 1 + i < w := by omega
        simp [hroom, hi]
      · have hnone : bs[i]? = none := List.getElem?_eq_none (Nat.not_lt.mp hbit)
        simp [List.getD, hnone]
    rw [List.length_cons, shiftBits, wordOf, ← BitVec.xor_assoc, shiftBit_xor, hdown, ih _ (by omega),
      List.foldl_cons, feedBit]

theorem wordOf_byteBits (b : UInt8) : (wordOf (byteBits b) : BitVec w) = b.toBitVec.setWidth w := by
  apply BitVec.eq_of_getLsbD_eq
  intro i _
  rw [getLsbD_wordOf, BitVec.getLsbD_setWidth]
  by_cases hi : i < 8
  · simp [byteBits, List.getD, hi]
  · simp [byteBits, List.getD, hi, Nat.not_lt.mp hi]

/-- A byte is fed as its eight bits. -/
theorem feed_eq_feedBit (hw : 8 ≤ w) (r : BitVec w) (b : UInt8) :
    feed poly r b = (byteBits b).foldl (feedBit poly) r := by
  rw [← shiftBits_xor_wordOf poly r (by rw [byteBits_length]; exact hw), wordOf_byteBits,
    byteBits_length, feed]

theorem foldl_feed_eq_feedBit (hw : 8 ≤ w) (bytes : List UInt8) (r : BitVec w) :
    bytes.foldl (feed poly) r = (bits bytes).foldl (feedBit poly) r := by
  induction bytes generalizing r with
  | nil => rfl
  | cons b bytes ih =>
    rw [List.foldl_cons, ih, feed_eq_feedBit poly hw, bits_cons, List.foldl_append]

/-! ## Differences in the register -/

theorem feedBit_xor (r s : BitVec w) (b c : Bool) :
    feedBit poly r b ^^^ feedBit poly s c = feedBit poly (r ^^^ s) (b ^^ c) := by
  unfold feedBit
  rw [← shiftBit_xor, ← lowBit_xor]
  congr 1
  ac_rfl

/-- The registers of two messages differ by the register of their difference. -/
theorem foldl_feedBit_xor {xs ys : List Bool} (hlen : xs.length = ys.length) (r s : BitVec w) :
    xs.foldl (feedBit poly) r ^^^ ys.foldl (feedBit poly) s =
      (List.zipWith Bool.xor xs ys).foldl (feedBit poly) (r ^^^ s) := by
  induction xs generalizing ys r s with
  | nil =>
    obtain rfl : ys = [] := List.length_eq_zero_iff.mp hlen.symm
    rfl
  | cons x xs ih =>
    cases ys with
    | nil => simp at hlen
    | cons y ys =>
      rw [List.foldl_cons, List.foldl_cons, ih (by simpa using hlen), feedBit_xor,
        List.zipWith_cons_cons, List.foldl_cons]

section
variable {poly} (hpoly : poly.msb = true)
include hpoly

/-- A polynomial with its top bit set marks the register when a one falls out, so that
nothing is forgotten. -/
theorem shiftBit_eq_zero {r : BitVec w} (h : shiftBit poly r = 0#w) : r = 0#w := by
  have htop : (r >>> 1).getLsbD (w - 1) = false := by
    rw [BitVec.getLsbD_ushiftRight]
    exact BitVec.getLsbD_of_ge _ _ (by omega)
  unfold shiftBit at h
  split at h
  · have hbit : ((r >>> 1) ^^^ poly).getLsbD (w - 1) = false := by rw [h]; simp
    rw [BitVec.getLsbD_xor, htop, Bool.false_xor, ← BitVec.msb_eq_getLsbD_last, hpoly] at hbit
    exact absurd hbit (by simp)
  · next hlow =>
    apply BitVec.eq_of_getLsbD_eq
    intro i hi
    rw [BitVec.getLsbD_zero]
    cases i with
    | zero => simpa using hlow
    | succ i =>
      have hbit : (r >>> 1).getLsbD i = false := by rw [h]; simp
      rwa [BitVec.getLsbD_ushiftRight, Nat.add_comm] at hbit

theorem shiftBits_eq_zero {n : Nat} {r : BitVec w} (h : shiftBits poly n r = 0#w) : r = 0#w := by
  induction n generalizing r with
  | zero => exact h
  | succ n ih => exact shiftBit_eq_zero hpoly (ih h)

/-- Zeros fed into the register keep a difference. -/
theorem foldl_feedBit_zeros {bs : List Bool} (hzeros : ∀ b ∈ bs, b = false) {r : BitVec w}
    (h : bs.foldl (feedBit poly) r = 0#w) : r = 0#w := by
  induction bs generalizing r with
  | nil => exact h
  | cons b bs ih =>
    obtain rfl := hzeros b List.mem_cons_self
    have hrest := ih (fun c hc => hzeros c (List.mem_cons_of_mem _ hc)) h
    rw [feedBit, lowBit_false, BitVec.xor_zero] at hrest
    exact shiftBit_eq_zero hpoly hrest

/-- At most `w` bits, not all zero, leave a register that is not zero. -/
theorem foldl_feedBit_window {bs : List Bool} (hlen : bs.length ≤ w)
    (h : bs.foldl (feedBit poly) 0#w = 0#w) : ∀ b ∈ bs, b = false := by
  rw [← shiftBits_xor_wordOf poly _ hlen, BitVec.zero_xor] at h
  have hword := shiftBits_eq_zero hpoly h
  intro b hb
  obtain ⟨i, hi, rfl⟩ := List.getElem_of_mem hb
  have hbit : (wordOf bs : BitVec w).getLsbD i = false := by rw [hword]; simp
  rw [getLsbD_wordOf] at hbit
  simpa [show i < w by omega, hi] using hbit

/-- A message whose ones lie in a window of `w` places, and that has one, leaves a register
that is not zero. -/
theorem foldl_feedBit_burst {bs : List Bool} {start : Nat}
    (hburst : ∀ k, bs[k]? = some true → start ≤ k ∧ k < start + w)
    (h : bs.foldl (feedBit poly) 0#w = 0#w) : ∀ b ∈ bs, b = false := by
  induction start generalizing bs with
  | zero =>
    have hrest : ∀ b ∈ bs.drop w, b = false := by
      intro b hb
      obtain ⟨i, hi⟩ := List.getElem?_of_mem hb
      cases b with
      | false => rfl
      | true =>
        rw [List.getElem?_drop] at hi
        have hlt := (hburst _ hi).2
        omega
    rw [← List.take_append_drop w bs, List.foldl_append] at h
    have hwindow := foldl_feedBit_window hpoly (by simp) (foldl_feedBit_zeros hpoly hrest h)
    intro b hb
    rw [← List.take_append_drop w bs] at hb
    exact (List.mem_append.mp hb).elim (hwindow b) (hrest b)
  | succ start ih =>
    cases bs with
    | nil => simp
    | cons b bs =>
      -- before the window every bit is zero, and zeros leave the empty register
      have hb : b = false := by
        cases b with
        | false => rfl
        | true =>
          have hle := (hburst 0 rfl).1
          omega
      subst hb
      have hempty : feedBit poly 0#w false = 0#w := by simp [feedBit, shiftBit]
      rw [List.foldl_cons, hempty] at h
      have htail := ih (fun k hk => by have hk' := hburst (k + 1) hk; omega) h
      intro b hb
      exact (List.mem_cons.mp hb).elim id (htail b)

/-- Two messages of one length whose bits differ within a window of `w` places only have
different checksums. -/
theorem checksum_ne_of_burst (hw : 8 ≤ w) {xs ys : List UInt8} (hlen : xs.length = ys.length)
    (hne : xs ≠ ys) {start : Nat}
    (hburst : ∀ k, (bits xs)[k]? ≠ (bits ys)[k]? → start ≤ k ∧ k < start + w) (init : BitVec w) :
    checksum poly init xs ≠ checksum poly init ys := by
  have hbits : (bits xs).length = (bits ys).length := by rw [bits_length, bits_length, hlen]
  intro heq
  have hregs : (bits xs).foldl (feedBit poly) (~~~ init) = (bits ys).foldl (feedBit poly) (~~~ init) := by
    rw [← foldl_feed_eq_feedBit poly hw, ← foldl_feed_eq_feedBit poly hw]
    exact BitVec.not_inj.mp heq
  have hdiff : (List.zipWith Bool.xor (bits xs) (bits ys)).foldl (feedBit poly) 0#w = 0#w := by
    have hxor := foldl_feedBit_xor poly hbits (~~~ init) (~~~ init)
    rw [hregs, BitVec.xor_self, BitVec.xor_self] at hxor
    exact hxor.symm
  have hwindow : ∀ k, (List.zipWith Bool.xor (bits xs) (bits ys))[k]? = some true →
      start ≤ k ∧ k < start + w := by
    intro k hk
    apply hburst k
    intro hsame
    rw [List.getElem?_zipWith, hsame] at hk
    cases hy : (bits ys)[k]? with
    | none => simp [hy] at hk
    | some b => simp [hy] at hk
  have hzero := foldl_feedBit_burst hpoly hwindow hdiff
  apply hne
  apply bits_injective
  apply List.ext_getElem hbits
  intro k hx hy
  have hmem : ((bits xs)[k] ^^ (bits ys)[k]) = false := by
    apply hzero
    apply List.mem_of_getElem? (i := k)
    simp [hx, hy]
  simpa using hmem

end

end ReflectedCrc
