-- SUMMARY: Reading back through the driver for eMMC what was written through it, at every offset and for both widths of `long`.
import LinuxOta.Flash.EmmcFlash
import LinuxOta.System.LongWidth

namespace LinuxOta

/-! # Offsets of the driver for eMMC

`rk_block_write` seeks with all 64 bits of the offset and puts the result into an `int`.
`rk_block_read` casts the offset to `long` before it seeks. -/

/-- `lseek` to an offset from the start of a device; -1 is `none`. -/
def lseek (partSize : Nat) (offset : Int) : Option Nat :=
  if offset < 0 ∨ (partSize : Int) < offset then none else some offset.toNat

/-- `rk_block_read` on a partition without faults: the return code and the buffer
afterwards. -/
def rkBlockRead (w : LongWidth) (partSize : Nat) (c : Content) (fd : Int) (offset : Nat)
    (destBuf : Bytes) : Int × Bytes :=
  if fd < 0 then (-1, destBuf)
  else match lseek partSize (w.cast offset) with
    | none => (-1, destBuf)
    | some pos =>
      -- the offset `lseek` returns goes into an `int`
      if asInt32 pos < 0 then (-1, destBuf)
      else
        let count := min destBuf.length (partSize - pos)
        let destBuf' := c.read pos count ++ destBuf.drop count
        if asInt32 count ≠ destBuf.length then (-1, destBuf') else (0, destBuf')

/-- `rk_block_write` on a partition without faults: the return code and the content
afterwards. -/
def rkBlockWriteOn (partSize : Nat) (c : Content) (fd : Int) (offset : Nat) (srcBuf : Bytes) :
    Int × Content :=
  let written := rkBlockWrite partSize fd offset srcBuf.length
  (written.ret, c.overwrite offset (srcBuf.take (written.reached srcBuf.length)))

/-- The position that a read of `offset` starts at, if it gets to read. -/
def LongWidth.position : LongWidth → Nat → Nat
  | bits32, offset => offset % 2 ^ 32
  | bits64, offset => offset

section
variable {w : LongWidth} {partSize offset : Nat} {fd : Int}

theorem LongWidth.position_le (w : LongWidth) (offset : Nat) : w.position offset ≤ offset := by
  cases w with
  | bits32 => exact Nat.mod_le _ _
  | bits64 => exact Nat.le_refl _

/-- Seeking for a read gets to its position, unless the cast made the offset negative. -/
theorem lseek_cast (hsize : partSize < 2 ^ 63) (hle : offset ≤ partSize)
    (hsign : offset % 2 ^ 32 < 2 ^ 31) : lseek partSize (w.cast offset) = some (w.position offset) := by
  have hcast : w.cast offset = w.position offset := by
    cases w with
    | bits32 => rw [LongWidth.cast, asInt32, if_pos hsign, LongWidth.position]
    | bits64 =>
      have hmod : offset % 2 ^ 64 = offset := Nat.mod_eq_of_lt (by omega)
      rw [LongWidth.cast, hmod, if_pos (by omega), LongWidth.position]
  have hpos := w.position_le offset
  rw [lseek, hcast, if_neg (by omega), Int.toNat_natCast]

theorem rkBlockRead_eq {c : Content} {destBuf : Bytes} (hfd : 0 ≤ fd) (hsize : partSize < 2 ^ 63)
    (hlen : destBuf.length < 2 ^ 31) (hfits : offset + destBuf.length ≤ partSize)
    (hsign : offset % 2 ^ 32 < 2 ^ 31) :
    rkBlockRead w partSize c fd offset destBuf =
      (0, c.read (w.position offset) destBuf.length) := by
  have hle := w.position_le offset
  have hmod : w.position offset % 2 ^ 32 < 2 ^ 31 := by
    cases w with
    | bits32 => rwa [LongWidth.position, Nat.mod_mod]
    | bits64 => exact hsign
  have hmin : min destBuf.length (partSize - w.position offset) = destBuf.length := by omega
  rw [rkBlockRead, if_neg (Int.not_lt.mpr hfd), lseek_cast hsize (by omega) hsign]
  simp only [asInt32_neg_iff, Nat.not_le.mpr hmod, ↓reduceIte, hmin, asInt32_of_lt hlen, ne_eq,
    not_true_eq_false, List.drop_length, List.append_nil]

/-- What a write at `offset` leaves where the read looks for it. -/
theorem read_position_overwrite {c : Content} {buf : Bytes} (hlen : buf.length < 2 ^ 31)
    (hsign : offset % 2 ^ 32 < 2 ^ 31) :
    (c.overwrite offset buf).read (w.position offset) buf.length = buf ↔
      w = .bits64 ∨ offset < 2 ^ 32 ∨ c.read (offset % 2 ^ 32) buf.length = buf := by
  by_cases hsame : w.position offset = offset
  · rw [hsame, Content.read_overwrite]
    refine iff_of_true rfl ?_
    cases w with
    | bits64 => exact .inl rfl
    | bits32 =>
      have hlt : offset % 2 ^ 32 < 2 ^ 32 := Nat.mod_lt _ (by decide)
      rw [LongWidth.position] at hsame
      exact .inr (.inl (by omega))
  · cases w with
    | bits64 => exact absurd rfl hsame
    | bits32 =>
      -- the read looks below 2^32, and the write is above
      rw [LongWidth.position] at hsame ⊢
      have habove : ¬ offset < 2 ^ 32 := fun hlt => hsame (Nat.mod_eq_of_lt hlt)
      have hread : (c.overwrite offset buf).read (offset % 2 ^ 32) buf.length =
          c.read (offset % 2 ^ 32) buf.length :=
        Content.read_congr fun j _ hj => Content.overwrite_before (by omega)
      rw [hread]
      exact ⟨fun h => .inr (.inr h), fun h => (h.resolve_left (by decide)).resolve_left habove⟩

end

/-- Within a partition, what was written is read back exactly when bit 31 of the offset is not
set and, if `long` has 32 bits, the higher bits are not either, or the bytes were already
where the read looks for them. -/
theorem emmc_access_iff (w : LongWidth) (partSize offset : Nat) (fd : Int) (c : Content)
    (buf destBuf : Bytes) (hfd : 0 ≤ fd) (hsize : partSize < 2 ^ 63) (hpos : 0 < buf.length)
    (hlen : buf.length < 2 ^ 31) (hdest : destBuf.length = buf.length)
    (hfits : offset + buf.length ≤ partSize) :
    (rkBlockWriteOn partSize c fd offset buf = (0, c.overwrite offset buf) ∧
      rkBlockRead w partSize (rkBlockWriteOn partSize c fd offset buf).2 fd offset destBuf = (0, buf)) ↔
      offset % 2 ^ 32 < 2 ^ 31 ∧
        (w = .bits64 ∨ offset < 2 ^ 32 ∨ c.read (offset % 2 ^ 32) buf.length = buf) := by
  by_cases hsign : offset % 2 ^ 32 < 2 ^ 31
  · have hwrite : rkBlockWriteOn partSize c fd offset buf = (0, c.overwrite offset buf) := by
      simp only [rkBlockWriteOn, rkBlockWrite_eq hfd hpos hlen hfits, if_pos hsign,
        WriteAnswer.reached, List.take_length]
      rfl
    have hiff := read_position_overwrite (w := w) (c := c) hlen hsign
    rw [hwrite, rkBlockRead_eq hfd hsize (by omega) (by omega) hsign, hdest]
    exact ⟨fun h => ⟨hsign, hiff.mp (congrArg Prod.snd h.2)⟩, fun h => ⟨rfl, by rw [hiff.mpr h.2]⟩⟩
  · refine iff_of_false (fun h => ?_) fun h => hsign h.1
    have hret : (rkBlockWriteOn partSize c fd offset buf).1 = -1 := by
      simp only [rkBlockWriteOn, rkBlockWrite_eq hfd hpos hlen hfits, if_neg hsign, WriteAnswer.ret]
    rw [h.1] at hret
    exact absurd hret (by decide : (0 : Int) ≠ -1)

theorem emmc_access_misc :
    rkBlockWriteOn 4096 (fun _ => 0) 3 2048 [1, 2] =
        (0, Content.overwrite (fun _ => 0) 2048 [1, 2]) ∧
      rkBlockRead .bits32 4096 (rkBlockWriteOn 4096 (fun _ => 0) 3 2048 [1, 2]).2 3 2048 [0, 0] =
        (0, [1, 2]) :=
  (emmc_access_iff .bits32 4096 2048 3 (fun _ => 0) [1, 2] [0, 0] (by decide) (by decide)
    (by decide) (by decide) rfl (by decide)).mpr ⟨by decide, .inr (.inl (by decide))⟩

/-- At 2 GiB the write fails. At 4 GiB, with a `long` of 32 bits, it succeeds, and the read
returns what is at offset 0. -/
theorem emmc_access_fails :
    (rkBlockWriteOn (2 ^ 33) (fun _ => 0) 3 (2 ^ 31) [1]).1 = -1 ∧
    (rkBlockWriteOn (2 ^ 33) (fun _ => 0) 3 (2 ^ 32) [1]).1 = 0 ∧
    rkBlockRead .bits32 (2 ^ 33) (rkBlockWriteOn (2 ^ 33) (fun _ => 0) 3 (2 ^ 32) [1]).2 3 (2 ^ 32) [0] =
      (0, [0]) ∧
    ¬ ∀ (w : LongWidth) (partSize offset : Nat) (fd : Int) (c : Content) (buf destBuf : Bytes),
      0 ≤ fd → partSize < 2 ^ 63 → 0 < buf.length → buf.length < 2 ^ 31 →
      destBuf.length = buf.length → offset + buf.length ≤ partSize →
      rkBlockWriteOn partSize c fd offset buf = (0, c.overwrite offset buf) ∧
      rkBlockRead w partSize (rkBlockWriteOn partSize c fd offset buf).2 fd offset destBuf =
        (0, buf) := by
  refine ⟨by decide, by decide, by decide, fun h => ?_⟩
  have hwrite := (h .bits32 (2 ^ 33) (2 ^ 31) 3 (fun _ => 0) [1] [0] (by decide) (by decide)
    (by decide) (by decide) rfl (by decide)).1
  exact absurd (congrArg Prod.fst hwrite) (by decide)

end LinuxOta
