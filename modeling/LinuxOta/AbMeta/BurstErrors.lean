-- SUMMARY: CRC-32 of the A/B record detects every burst of 32 bits, and with it every change to one slot.
import LinuxOta.AbMeta.Checksum
import LinuxOta.Base.BurstErrors

namespace LinuxOta

/-! # Burst errors in the A/B record -/

theorem crc32Poly_msb : crc32Poly.msb = true := by decide

/-- The four bytes in network order are the word again. -/
theorem load_store_big (word : BitVec 32) : Endian.big.load (Endian.big.store word) = word := by
  apply BitVec.eq_of_getLsbD_eq
  intro i hi
  simp only [Endian.load, Endian.store, Vector.getElem_mk, List.getElem_toArray,
    List.getElem_cons_zero, List.getElem_cons_succ, BitVec.getLsbD_append, BitVec.getLsbD_extractLsb']
  by_cases h₀ : i < 8
  · simp [h₀]
  by_cases h₁ : i < 16
  · simp [h₀, show i - 8 < 8 by omega, show 8 + (i - 8) = i by omega]
  by_cases h₂ : i < 24
  · simp [h₀, show ¬ i - 8 < 8 by omega, show i - 8 - 8 < 8 by omega, show 16 + (i - 8 - 8) = i by omega]
  · simp [h₀, show ¬ i - 8 < 8 by omega, show ¬ i - 8 - 8 < 8 by omega,
      show i - 8 - 8 - 8 < 8 by omega, show 24 + (i - 8 - 8 - 8) = i by omega]

theorem msbFirst_injective : Function.Injective msbFirst := by
  intro word word' h
  rw [msbFirst_eq_store, msbFirst_eq_store] at h
  rw [← load_store_big word, h, load_store_big]

theorem Endian.load_injective (host : Endian) : Function.Injective host.load := by
  intro v v' h
  rw [← host.store_load v, h, host.store_load]

namespace SlotData

@[simp] theorem toBytes_length (v : SlotData) : v.toBytes.length = 4 := rfl

theorem toBytes_injective : Function.Injective toBytes := by
  intro v v' h
  obtain ⟨_, _, _, _⟩ := v
  obtain ⟨_, _, _, _⟩ := v'
  simpa [toBytes] using h

end SlotData

/-- The bytes of a slot stand between bytes that do not depend on it. -/
theorem AbData.body_setSlot (d : AbData) (s : Slot) :
    ∃ pre post, ∀ v, (d.setSlot s v).body = pre ++ v.toBytes ++ post := by
  cases s with
  | a =>
    refine ⟨d.magic.toList ++ [d.versionMajor, d.versionMinor] ++ d.reserved1.toList,
      d.slotB.toBytes ++ [d.lastBoot] ++ d.reserved2.toList, fun v => ?_⟩
    simp [AbData.body, AbData.setSlot]
  | b =>
    refine ⟨d.magic.toList ++ [d.versionMajor, d.versionMinor] ++ d.reserved1.toList ++ d.slotA.toBytes,
      [d.lastBoot] ++ d.reserved2.toList, fun v => ?_⟩
    simp [AbData.body, AbData.setSlot]

theorem AbData.setSlot_slots (d : AbData) (s : Slot) : d.setSlot s (d.slots s) = d := by
  cases s <;> rfl

/-- A burst of at most 32 bits changes the checksum. -/
theorem abMetaCrc32_ne_of_burst {buf buf' : Bytes} (hlen : buf.length = buf'.length)
    (hne : buf ≠ buf') {start : Nat}
    (hburst : ∀ k, (ReflectedCrc.bits buf)[k]? ≠ (ReflectedCrc.bits buf')[k]? →
      start ≤ k ∧ k < start + 32) (crcIn : BitVec 32) :
    abMetaCrc32 crcIn buf ≠ abMetaCrc32 crcIn buf' := by
  rw [abMetaCrc32_eq, abMetaCrc32_eq]
  exact ReflectedCrc.checksum_ne_of_burst crc32Poly_msb (by decide) hlen hne hburst crcIn

/-- Another slot in the record changes the checksum. -/
theorem abMetaCrc32_setSlot_ne {d : AbData} {s : Slot} {v : SlotData} (hne : v ≠ d.slots s)
    (crcIn : BitVec 32) : abMetaCrc32 crcIn (d.setSlot s v).body ≠ abMetaCrc32 crcIn d.body := by
  obtain ⟨pre, post, hbody⟩ := d.body_setSlot s
  have hold : d.body = pre ++ (d.slots s).toBytes ++ post := by rw [← hbody, d.setSlot_slots]
  rw [hbody, hold]
  have hburst : ∀ k, (ReflectedCrc.bits (pre ++ v.toBytes ++ post))[k]? ≠
      (ReflectedCrc.bits (pre ++ (d.slots s).toBytes ++ post))[k]? →
        8 * pre.length ≤ k ∧ k < 8 * pre.length + 32 := by
    intro k hk
    have hwindow := ReflectedCrc.window_of_bits_ne (by simp) hk
    rwa [SlotData.toBytes_length] at hwindow
  apply abMetaCrc32_ne_of_burst (by simp) ?_ hburst
  intro heq
  rw [List.append_left_inj, List.append_right_inj] at heq
  exact hne (SlotData.toBytes_injective heq)

/-- The checksum detects every burst of at most 32 bits in a byte string, and with it every
change to the four bytes of one slot of the record. -/
theorem checksum_detects_bursts :
    (∀ (crcIn : BitVec 32) (buf buf' : Bytes), buf.length = buf'.length → buf ≠ buf' →
      (∃ start, ∀ k, (ReflectedCrc.bits buf)[k]? ≠ (ReflectedCrc.bits buf')[k]? →
        start ≤ k ∧ k < start + 32) →
      abMetaCrc32 crcIn buf ≠ abMetaCrc32 crcIn buf') ∧
    ∀ (host : Endian) (d : AbData) (s : Slot) (v : SlotData), v ≠ d.slots s →
      (∀ crcIn, abMetaCrc32 crcIn (d.setSlot s v).body ≠ abMetaCrc32 crcIn d.body) ∧
        abMetaCalcCrc host (d.setSlot s v) ≠ abMetaCalcCrc host d := by
  constructor
  · rintro crcIn buf buf' hlen hne ⟨start, hburst⟩
    exact abMetaCrc32_ne_of_burst hlen hne hburst crcIn
  · intro host d s v hne
    refine ⟨abMetaCrc32_setSlot_ne hne, fun heq => ?_⟩
    unfold abMetaCalcCrc abMetaHtonl at heq
    exact abMetaCrc32_setSlot_ne hne 0 (msbFirst_injective (host.load_injective heq))

/-- One bit of a byte string, and one byte of a slot. -/
theorem checksum_detects_bursts_small :
    abMetaCrc32 7 [0x41, 0x42] ≠ abMetaCrc32 7 [0x41, 0x43] ∧
      abMetaCalcCrc .little ((AbData.ofBytes []).setSlot .b ⟨15, 0, 0, 0⟩) ≠
        abMetaCalcCrc .little (AbData.ofBytes []) := by
  refine ⟨checksum_detects_bursts.1 7 _ _ rfl (by decide) ⟨0, fun k hk => ?_⟩,
    (checksum_detects_bursts.2 .little _ .b _ (by decide)).2⟩
  by_contra hout
  apply hk
  rw [List.getElem?_eq_none (by rw [ReflectedCrc.bits_length, List.length_cons]; simp; omega),
    List.getElem?_eq_none (by rw [ReflectedCrc.bits_length, List.length_cons]; simp; omega)]

end LinuxOta
