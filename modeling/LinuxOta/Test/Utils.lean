-- SUMMARY: `string_to_bcd` and `bcd_to_string` of the test program: what they store, and when one undoes the other.
import LinuxOta.Base.Bcd
import LinuxOta.Base.Stores
import LinuxOta.System.LongWidth

namespace LinuxOta.Utils

/-! # utils.c

The bytes that are stored are kept in their order, so that a store behind the end of the
output shows. -/

/-- The loop of `string_to_bcd`, from turn `i` on. -/
def pairStores (srcBuf : Bytes) : (turns i : Nat) → List Store
  | 0, _ => []
  | turns + 1, i =>
    let byteHigh := srcBuf.getD (i * 2) 0 - 0x30
    let byteLow := srcBuf.getD (i * 2 + 1) 0 - 0x30
    ⟨i, byteHigh <<< 4 ||| byteLow⟩ :: pairStores srcBuf turns (i + 1)

/-- `string_to_bcd`, for the whole of `srcBuf`. -/
def stringToBcd (w : LongWidth) (srcBuf : Bytes) (destLen : Nat) : Int × List Store :=
  let srcLen := srcBuf.length
  let retLen := asInt32 ((srcLen + 1) % 2 ^ w.bits / 2)
  if destLen < w.toSize retLen then (-1, [])
  else
    let pairs := pairStores srcBuf (srcLen / 2) 0
    if srcLen % 2 ≠ 0 then
      (retLen, pairs ++ [⟨srcLen / 2, (srcBuf.getD (srcLen - 1) 0 - 0x30) <<< 4⟩])
    else (retLen, pairs)

/-- The loop of `bcd_to_string`, from output index `j` on. -/
def digitStores (destLen : UInt32) : Bytes → (j : UInt32) → List Store
  | [], _ => []
  | b :: srcBuf, j =>
    if j < destLen then
      ⟨j.toNat, (b >>> 4 &&& 0x0f) + 0x30⟩ :: ⟨(j + 1).toNat, (b &&& 0x0f) + 0x30⟩ ::
        digitStores destLen srcBuf (j + 2)
    else []

/-- `bcd_to_string`, for the whole of `srcBuf`. -/
def bcdToString (srcBuf : Bytes) (destLen : UInt32) : Int × List Store :=
  (0, digitStores destLen srcBuf 0)

/-! ## What is stored -/

/-- What `string_to_bcd` stores for the digits `s` behind those of `i` bytes: the pairs, and the
digit that is left of an odd number. -/
theorem pairStores_append (done s : Bytes) (i : Nat) (hdone : done.length = i * 2) :
    (pairStores (done ++ s) (s.length / 2) i ++
      if s.length % 2 ≠ 0 then
        [⟨i + s.length / 2, ((done ++ s).getD (i * 2 + s.length - 1) 0 - 0x30) <<< 4⟩]
      else []) = Stores.consecutive i (Bcd.encode s) := by
  induction s using Bcd.encode.induct generalizing done i with
  | case1 => rfl
  | case2 c =>
    have hget : (done ++ [c]).getD (i * 2) 0 = c := by simp [List.getD, ← hdone]
    have hpack : (c - 0x30) <<< 4 = Bcd.pack c 0x30 := by
      rw [Bcd.pack, UInt8.sub_self, UInt8.or_zero]
    have hlast : i * 2 + [c].length - 1 = i * 2 := Nat.add_sub_cancel (i * 2) 1
    have hturns : [c].length / 2 = 0 := Nat.div_eq_of_lt Nat.one_lt_two
    have hparity : [c].length % 2 = 1 := Nat.mod_eq_of_lt Nat.one_lt_two
    rw [hlast, hget, hpack, hturns, hparity]
    rfl
  | case3 hi lo s ih =>
    have hhi : (done ++ hi :: lo :: s).getD (i * 2) 0 = hi := by simp [List.getD, ← hdone]
    have hlo : (done ++ hi :: lo :: s).getD (i * 2 + 1) 0 = lo := by simp [List.getD, ← hdone]
    have hturns : (hi :: lo :: s).length / 2 = s.length / 2 + 1 := Nat.add_div_right s.length Nat.two_pos
    have hparity : (hi :: lo :: s).length % 2 = s.length % 2 := Nat.add_mod_right s.length 2
    have hrest := ih (done ++ [hi, lo]) (i + 1) (by simp [hdone, Nat.add_mul])
    have hindex : i + (s.length / 2 + 1) = i + 1 + s.length / 2 := by omega
    have hlast : i * 2 + (hi :: lo :: s).length - 1 = (i + 1) * 2 + s.length - 1 := by
      rw [List.length_cons, List.length_cons]
      omega
    rw [List.append_assoc, List.cons_append, List.cons_append, List.nil_append] at hrest
    rw [hparity, hlast, hturns, hindex, pairStores, hhi, hlo, List.cons_append, hrest]
    rfl

/-- A string that fits is packed. -/
theorem stringToBcd_eq (w : LongWidth) {s : Bytes} (hlen : s.length < 2 ^ 31 - 1) (destLen : Nat) :
    stringToBcd w s destLen =
      if destLen < (s.length + 1) / 2 then ((-1 : Int), [])
      else (((s.length + 1) / 2 : Nat), Stores.consecutive 0 (Bcd.encode s)) := by
  have hbits : (s.length + 1) % 2 ^ w.bits = s.length + 1 := by
    apply Nat.mod_eq_of_lt
    cases w <;> simp only [LongWidth.bits] <;> omega
  have hint : asInt32 ((s.length + 1) / 2) = ((s.length + 1) / 2 : Nat) := asInt32_of_lt (by omega)
  have hsize : w.toSize ((s.length + 1) / 2 : Nat) = (s.length + 1) / 2 := w.toSize_of_lt (by omega)
  have hstores := pairStores_append [] s 0 rfl
  rw [List.nil_append, Nat.zero_add, Nat.zero_mul, Nat.zero_add] at hstores
  simp only [stringToBcd, hbits, hint, hsize, ← hstores]
  split
  · rfl
  · split
    · rfl
    · rw [List.append_nil]

/-- Two digits of a byte are stored as long as the index of the first one is below the capacity. -/
theorem digitStores_eq (destLen : UInt32) (bs : Bytes) (j : UInt32)
    (hj : j.toNat + 2 * bs.length < 2 ^ 32) :
    digitStores destLen bs j =
      Stores.consecutive j.toNat (Bcd.decode (bs.take ((destLen.toNat + 1 - j.toNat) / 2))) := by
  induction bs generalizing j with
  | nil => simp [digitStores]
  | cons b bs ih =>
    rw [List.length_cons] at hj
    unfold digitStores
    by_cases hlt : j < destLen
    · have hnat : j.toNat < destLen.toNat := UInt32.lt_iff_toNat_lt.mp hlt
      have hone : (j + 1).toNat = j.toNat + 1 := by
        rw [UInt32.toNat_add]
        exact Nat.mod_eq_of_lt (by simp only [UInt32.toNat_one]; omega)
      have htwo : (j + 2).toNat = j.toNat + 2 := by
        rw [UInt32.toNat_add]
        exact Nat.mod_eq_of_lt (by simp only [UInt32.reduceToNat]; omega)
      have hturns : (destLen.toNat + 1 - j.toNat) / 2 = (destLen.toNat + 1 - (j + 2).toNat) / 2 + 1 := by
        omega
      rw [if_pos hlt, ih (j + 2) (by omega), hturns, List.take_succ_cons, Bcd.decode_cons, hone, htwo]
      rfl
    · have hnat : destLen.toNat ≤ j.toNat := Nat.not_lt.mp fun h => hlt (UInt32.lt_iff_toNat_lt.mpr h)
      have hnone : (destLen.toNat + 1 - j.toNat) / 2 = 0 := by omega
      rw [if_neg hlt, hnone]
      rfl

/-- A call of `bcd_to_string` stores the digits of the bytes it gets to. -/
theorem bcdToString_stores {bs : Bytes} (hlen : 2 * bs.length < 2 ^ 32) (destLen : UInt32) :
    (bcdToString bs destLen).2 = Stores.consecutive 0 (Bcd.decode (bs.take ((destLen.toNat + 1) / 2))) := by
  have h := digitStores_eq destLen bs 0 (by simpa using hlen)
  simpa [bcdToString] using h

/-! ## The round trip -/

/-- `string_to_bcd` stores as many bytes as it returns, or none. -/
structure Packs (w : LongWidth) (s : Bytes) (destLen : Nat) : Prop where
  fits : (s.length + 1) / 2 ≤ destLen →
    (stringToBcd w s destLen).1 = ((s.length + 1) / 2 : Nat) ∧
      (stringToBcd w s destLen).2.map Store.index = List.range ((s.length + 1) / 2)
  short : destLen < (s.length + 1) / 2 → stringToBcd w s destLen = (-1, [])

/-- The bytes that `string_to_bcd` leaves in a buffer with content `c`. -/
def packed (w : LongWidth) (s : Bytes) (destLen : Nat) (c : Content) : Bytes :=
  (Stores.run (stringToBcd w s destLen).2 c).read 0 ((s.length + 1) / 2)

/-- `bcd_to_string` stays within the capacity, and returns 0 only if it has stored the digits of
all bytes, which are the string `s` and what fills up its last byte. -/
structure Unpacks (s bcd : Bytes) (destLen : UInt32) : Prop where
  within : ∀ st ∈ (bcdToString bcd destLen).2, st.index < destLen.toNat
  all : (bcdToString bcd destLen).1 = 0 →
    ∀ i < 2 * bcd.length, ∃ st ∈ (bcdToString bcd destLen).2, st.index = i
  text : (bcdToString bcd destLen).1 = 0 → ∀ c : Content,
    (Stores.run (bcdToString bcd destLen).2 c).read 0 (2 * bcd.length) =
      s ++ List.replicate (s.length % 2) 0x30

theorem packs (w : LongWidth) {s : Bytes} (hlen : s.length < 2 ^ 31 - 1) (destLen : Nat) :
    Packs w s destLen where
  fits hfits := by
    rw [stringToBcd_eq w hlen, if_neg (Nat.not_lt.mpr hfits)]
    refine ⟨rfl, ?_⟩
    rw [Stores.map_index_consecutive, Bcd.encode_length, List.range_eq_range']
  short hshort := by rw [stringToBcd_eq w hlen, if_pos hshort]

theorem packed_eq (w : LongWidth) {s : Bytes} (hlen : s.length < 2 ^ 31 - 1) {destLen : Nat}
    (hfits : (s.length + 1) / 2 ≤ destLen) (c : Content) : packed w s destLen c = Bcd.encode s := by
  rw [packed, stringToBcd_eq w hlen, if_neg (Nat.not_lt.mpr hfits), ← Bcd.encode_length,
    Stores.read_run_consecutive]

/-- With room for all digits, all of them are stored and nothing else. -/
theorem unpacks_encode {s : Bytes} (hs : ∀ c ∈ s, Bcd.IsDigit c) (hlen : s.length < 2 ^ 31 - 1)
    {destLen : UInt32} (hroom : 2 * ((s.length + 1) / 2) ≤ destLen.toNat) :
    Unpacks s (Bcd.encode s) destLen := by
  have hbytes := Bcd.encode_length s
  have hdigits := Bcd.decode_length (Bcd.encode s)
  have hstores : (bcdToString (Bcd.encode s) destLen).2 =
      Stores.consecutive 0 (Bcd.decode (Bcd.encode s)) := by
    rw [bcdToString_stores (by omega), List.take_of_length_le (by omega)]
  constructor
  · intro st hst
    rw [hstores] at hst
    have hindex := Stores.exists_mem_consecutive_iff.mp ⟨st, hst, rfl⟩
    omega
  · intro _ i hi
    rw [hstores]
    exact Stores.exists_mem_consecutive_iff.mpr (by omega)
  · intro _ c
    rw [hstores, ← hdigits, Stores.read_run_consecutive, Bcd.decode_encode hs]

/-- The first character that there is no room for is stored behind the end or not at all. -/
theorem Unpacks.room {s bcd : Bytes} {destLen : UInt32} (h : Unpacks s bcd destLen) :
    2 * bcd.length ≤ destLen.toNat := by
  by_contra hshort
  obtain ⟨st, hst, hindex⟩ := h.all rfl destLen.toNat (Nat.lt_of_not_le hshort)
  exact absurd (h.within st hst) (by omega)

/-- For every string of digits, `string_to_bcd` returns and stores what it is to; and
`bcd_to_string` gives the string back within its capacity if and only if this is at least twice
the number of bytes. -/
theorem bcd_round_trip_iff (w : LongWidth) (s : Bytes) (hs : ∀ c ∈ s, Bcd.IsDigit c)
    (hlen : s.length < 2 ^ 31 - 1) (capacity : UInt32) :
    ((∀ destLen, Packs w s destLen) ∧
      ∀ destLen c, (s.length + 1) / 2 ≤ destLen → Unpacks s (packed w s destLen c) capacity) ↔
    2 * ((s.length + 1) / 2) ≤ capacity.toNat := by
  constructor
  · rintro ⟨-, h⟩
    have hroom := (h ((s.length + 1) / 2) (fun _ => 0) (Nat.le_refl _)).room
    rwa [packed_eq w hlen (Nat.le_refl _), Bcd.encode_length] at hroom
  · intro hroom
    refine ⟨packs w hlen, fun destLen c hfits => ?_⟩
    rw [packed_eq w hlen hfits]
    exact unpacks_encode hs hlen hroom

/-- "123" needs two bytes, and four characters to come back. -/
theorem bcd_round_trip_123 :
    (∀ destLen, Packs .bits32 [0x31, 0x32, 0x33] destLen) ∧
      ∀ destLen c, 2 ≤ destLen → Unpacks [0x31, 0x32, 0x33] (packed .bits32 [0x31, 0x32, 0x33] destLen c) 4 :=
  (bcd_round_trip_iff .bits32 [0x31, 0x32, 0x33] (by simp [Bcd.IsDigit]) (by decide) 4).mpr (by decide)

/-- With room for one character, the second digit of "12" is stored behind it; with no room,
nothing is stored, and 0 is returned all the same. -/
theorem bcd_round_trip_fails :
    (⟨1, 0x32⟩ : Store) ∈ (bcdToString (packed .bits32 [0x31, 0x32] 1 fun _ => 0) 1).2 ∧
      bcdToString (packed .bits32 [0x31, 0x32] 1 fun _ => 0) 0 = (0, []) ∧
      ¬ Unpacks [0x31, 0x32] (packed .bits32 [0x31, 0x32] 1 fun _ => 0) 1 ∧
      ¬ Unpacks [0x31, 0x32] (packed .bits32 [0x31, 0x32] 1 fun _ => 0) 0 := by
  refine ⟨by decide, by decide, fun h => ?_, fun h => ?_⟩
  · exact absurd h.room (by decide)
  · exact absurd h.room (by decide)

end LinuxOta.Utils
