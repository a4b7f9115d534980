-- SUMMARY: The driver for eMMC: its write and erase on a partition without faults.
import LinuxOta.Base.Int32
import LinuxOta.Flash.DlFlash

namespace LinuxOta

/-! # emmc_flash -/

/-- `rk_block_write` on a partition of `partSize` bytes that stores all it is given, up to
its end. -/
def rkBlockWrite (partSize : Nat) (fd : Int) (offset srcSize : Nat) : WriteAnswer :=
  if srcSize = 0 ∨ fd < 0 then .failed 0
  -- the offset `lseek64` returns goes into an `int`
  else if asInt32 offset < 0 then .failed 0
  else if asInt32 (min srcSize (partSize - offset)) ≠ srcSize then .failed (partSize - offset)
  else .stored

/-- `rk_block_erase`. -/
def rkBlockErase (fd : Int) : Int :=
  if fd < 0 then -1 else 0

/-- Within the partition a write is stored, unless bit 31 of the offset is set. -/
theorem rkBlockWrite_eq {partSize offset n : Nat} {fd : Int} (hfd : 0 ≤ fd) (hpos : 0 < n)
    (hlen : n < 2 ^ 31) (hfits : offset + n ≤ partSize) :
    rkBlockWrite partSize fd offset n = if offset % 2 ^ 32 < 2 ^ 31 then .stored else .failed 0 := by
  rw [rkBlockWrite, if_neg (by omega)]
  by_cases hsign : offset % 2 ^ 32 < 2 ^ 31
  · have hmin : min n (partSize - offset) = n := by omega
    rw [if_neg (by rw [asInt32_neg_iff]; omega), hmin, asInt32_of_lt hlen, if_neg (by simp),
      if_pos hsign]
  · rw [if_pos (by rw [asInt32_neg_iff]; omega), if_neg hsign]

/-- Within the first 2 GiB of the partition a write is stored. -/
theorem rkBlockWrite_stored {partSize offset srcSize : Nat} {fd : Int} (hfd : 0 ≤ fd)
    (hsize : 0 < srcSize) (hfits : offset + srcSize ≤ partSize) (hlt : offset + srcSize < 2 ^ 31) :
    rkBlockWrite partSize fd offset srcSize = .stored := by
  rw [rkBlockWrite_eq hfd hsize (by omega) hfits, if_pos (by omega)]

theorem rkBlockErase_nonneg {fd : Int} (hfd : 0 ≤ fd) : rkBlockErase fd = 0 :=
  if_neg (Int.not_lt.mpr hfd)

end LinuxOta
