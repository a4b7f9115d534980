-- SUMMARY: The flash type named on the kernel command line, and the drivers `dl_flash_init` installs for it.
import LinuxOta.Base.CString
import LinuxOta.Flash.DlFlash

namespace LinuxOta

/-! # Flash types and drivers -/

/-- `dl_flash_type_t`. -/
inductive FlashType where
  | emmc
  | spiNand
  | spiNor
  /-- `DL_FLASH_BUTT`. -/
  | butt
  deriving DecidableEq, Repr

/-- `get_flash_type`, by what `open` and `read` return; -1 is `none`. -/
def getFlashType (opened read : Int) (cmdline : List Char) : Option FlashType :=
  if opened < 0 then none
  else if read ≤ 0 then none
  else
    let param := CString.ofBuffer (cmdline.take (min read.toNat 2048))
    if (CString.strstr param "emmc".toList).isSome then some .emmc
    else if (CString.strstr param "nand".toList).isSome then some .spiNand
    else if (CString.strstr param "nor".toList).isSome then some .spiNor
    else some .butt

/-- How the system calls behind a read or a write end. -/
inductive Transfer where
  | complete
  /-- Seeking fails, or the transfer stops short after `n` bytes. -/
  | cut (n : Nat)
  deriving DecidableEq, Repr

/-- The function tables of `flash_ops_t`, by the file their functions are in. -/
inductive FlashOps where
  /-- `emmc_flash.c`. -/
  | block
  /-- `nand_flash.c`. -/
  | nand
  /-- `nor_flash.c`. -/
  | nor
  deriving DecidableEq, Repr

namespace FlashOps

/-- `rk_block_open`, `rk_nand_open`, `rk_nor_open`, by what `open` returns. -/
def opened : FlashOps → Int → Int
  | block, fd => if fd < 0 then -1 else fd
  | nand, _ => 0
  | nor, _ => 0

/-- `rk_block_write`, `rk_nand_write`, `rk_nor_write`. -/
def write : FlashOps → Transfer → WriteAnswer
  | block, .complete => .stored
  | block, .cut n => .failed n
  | nand, _ => .ignored
  | nor, _ => .ignored

/-- `rk_block_read`, `rk_nand_read`, `rk_nor_read`. -/
def read : FlashOps → Transfer → ReadAnswer
  | block, .complete => .filled
  | block, .cut _ => .failed
  | nand, _ => .ignored
  | nor, _ => .ignored

end FlashOps

/-- `g_flash_ctrl` with its table. -/
structure FlashState where
  ctrl : FlashCtrl
  /-- `none` for null pointers. -/
  ops : Option FlashOps
  deriving DecidableEq, Repr

/-- `BLOCK_WRITE_LEN` of `emmc_flash.h`. -/
def FlashOps.blockWriteLen : Nat := 16 * 1024

/-- `dl_flash_init`. -/
def dlFlashInit (opened read : Int) (cmdline : List Char) (st : FlashState) : Int × FlashState :=
  let flashType := getFlashType opened read cmdline
  if st.ctrl.isInit then (0, st)
  else match flashType with
    | some .emmc => (0, ⟨⟨true, FlashOps.blockWriteLen⟩, some .block⟩)
    | some .spiNand => (0, ⟨{ st.ctrl with isInit := true }, some .nand⟩)
    | some .spiNor => (0, ⟨{ st.ctrl with isInit := true }, some .nor⟩)
    | _ => (-1, st)

/-- The table that goes with a flash type. -/
def FlashType.ops : FlashType → Option FlashOps
  | emmc => some .block
  | spiNand => some .nand
  | spiNor => some .nor
  | butt => none

/-- An initialisation that succeeds installs the table of the flash type. -/
theorem dlFlashInit_success {opened read : Int} {cmdline : List Char} {st : FlashState}
    (hfresh : st.ctrl.isInit = false) (h : (dlFlashInit opened read cmdline st).1 = 0) :
    ∃ t ops, getFlashType opened read cmdline = some t ∧ t.ops = some ops ∧
      (dlFlashInit opened read cmdline st).2.ctrl.isInit = true ∧
      (dlFlashInit opened read cmdline st).2.ops = some ops := by
  cases htype : getFlashType opened read cmdline with
  | none => simp [dlFlashInit, hfresh, htype] at h
  | some t =>
    cases t with
    | emmc => exact ⟨.emmc, .block, rfl, rfl, by simp [dlFlashInit, hfresh, htype]⟩
    | spiNand => exact ⟨.spiNand, .nand, rfl, rfl, by simp [dlFlashInit, hfresh, htype]⟩
    | spiNor => exact ⟨.spiNor, .nor, rfl, rfl, by simp [dlFlashInit, hfresh, htype]⟩
    | butt => simp [dlFlashInit, hfresh, htype] at h

end LinuxOta
