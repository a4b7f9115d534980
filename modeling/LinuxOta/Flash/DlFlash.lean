-- SUMMARY: The flash layer `dl_flash`: its checks, and what the installed driver answers to each call.
import LinuxOta.System.Machine

namespace LinuxOta

/-! # dl_flash

`dl_flash.c` checks its arguments and calls through the table of the installed
driver. What the driver's function answers is an argument here. -/

/-- How a driver's `write` ends. -/
inductive WriteAnswer where
  /-- All bytes reached the device. -/
  | stored
  /-- 0 is returned and nothing is done, as `rk_nand_write` and `rk_nor_write` do. -/
  | ignored
  /-- -1 is returned after the first `n` bytes reached the device. -/
  | failed (n : Nat)
  deriving DecidableEq, Repr

/-- How a driver's `read` ends. -/
inductive ReadAnswer where
  /-- The buffer was filled from the device. -/
  | filled
  /-- 0 is returned and the buffer left alone, as `rk_nand_read` and `rk_nor_read` do. -/
  | ignored
  | failed
  deriving DecidableEq, Repr

namespace WriteAnswer

def ret : WriteAnswer → Int
  | stored => 0
  | ignored => 0
  | failed _ => -1

/-- How many of `len` bytes reach the device. -/
def reached : WriteAnswer → (len : Nat) → Nat
  | stored, len => len
  | ignored, _ => 0
  | failed n, len => min n len

end WriteAnswer

namespace ReadAnswer

def ret : ReadAnswer → Int
  | filled => 0
  | ignored => 0
  | failed => -1

end ReadAnswer

/-- `g_flash_ctrl`, less the driver table. -/
structure FlashCtrl where
  isInit : Bool
  /-- `info.block_size`. -/
  blockSize : Nat
  deriving DecidableEq, Repr

/-- `FLASH_DEV_PREFIX`. -/
def flashDevPrefix : String := "/dev"

section
variable (g : FlashCtrl)

/-- `dl_flash_open_by_name`. -/
def dlFlashOpenByName (opened : Int) (path : String) (m : Machine) : Int × Machine :=
  if !g.isInit then (-1, m)
  else if path < flashDevPrefix then (-1, m)
  else if opened < 0 then (-1, m)
  else (opened, m.log (.flashOpen path))

/-- `dl_flash_get_info`: the block size, or `none` for -1. -/
def dlFlashGetInfo (fd : Int) (path : String) (m : Machine) : Option Nat × Machine :=
  if !g.isInit then (none, m)
  else if fd < 0 then (none, m)
  else (some g.blockSize, m.log (.flashUse path))

/-- `dl_flash_erase`. No driver changes the content of the device here. -/
def dlFlashErase (erased : Int) (fd : Int) (path : String) (offset length : Nat) (m : Machine) :
    Int × Machine :=
  let m := m.log (.flashErase path offset length)
  if !g.isInit then (-1, m)
  else if fd < 0 then (-1, m)
  else if erased < 0 then (-1, m)
  else (erased, m)

/-- `dl_flash_write`. -/
def dlFlashWrite (written : WriteAnswer) (fd : Int) (path : String) (offset : Nat) (srcBuf : Bytes)
    (m : Machine) : Int × Machine :=
  let m := m.log (.flashWrite path offset srcBuf)
  if !g.isInit then (-1, m)
  else if fd < 0 then (-1, m)
  else (written.ret, m.store path offset (srcBuf.take (written.reached srcBuf.length)))

/-- `dl_flash_read`: the return code and the buffer afterwards. -/
def dlFlashRead (read : ReadAnswer) (fd : Int) (path : String) (offset : Nat) (destBuf : Bytes)
    (m : Machine) : Int × Bytes × Machine :=
  let m := m.log (.flashRead path offset destBuf.length)
  if !g.isInit then (-1, destBuf, m)
  else if fd < 0 then (-1, destBuf, m)
  else match read with
    | .filled => (read.ret, (m.devs path).read offset destBuf.length, m)
    | _ => (read.ret, destBuf, m)

/-- `dl_flash_close`. Its return code is used nowhere. -/
def dlFlashClose (fd : Int) (path : String) (m : Machine) : Machine :=
  if !g.isInit then m
  else if fd < 0 then m
  else m.log (.flashClose path)

end

/-! ## Opening a device -/

/-- The driver opens the device: the layer is initialised and the answer is a
descriptor. -/
def FlashCtrl.Opens (g : FlashCtrl) (opened : Int) : Prop := g.isInit = true ∧ 0 ≤ opened

instance (g : FlashCtrl) (opened : Int) : Decidable (g.Opens opened) :=
  inferInstanceAs (Decidable (_ ∧ _))

section
variable {g : FlashCtrl} {opened : Int} {path : String} {m : Machine}

theorem dlFlashOpenByName_opens (hpath : ¬ path < flashDevPrefix) (h : g.Opens opened) :
    dlFlashOpenByName g opened path m = (opened, m.log (.flashOpen path)) := by
  simp [dlFlashOpenByName, h.1, hpath, Int.not_lt.mpr h.2]

theorem dlFlashOpenByName_fails (h : ¬ g.Opens opened) :
    dlFlashOpenByName g opened path m = (-1, m) := by
  by_cases hi : g.isInit
  · have ho : opened < 0 := Int.not_le.mp fun ho => h ⟨hi, ho⟩
    simp [dlFlashOpenByName, ho]
  · simp [dlFlashOpenByName, hi]

theorem dlFlashErase_opens {erased : Int} {offset length : Nat} (h : g.Opens opened) :
    dlFlashErase g erased opened path offset length m =
      (if erased < 0 then -1 else erased, m.log (.flashErase path offset length)) := by
  by_cases he : erased < 0 <;> simp [dlFlashErase, h.1, Int.not_lt.mpr h.2, he]

theorem dlFlashWrite_opens {written : WriteAnswer} {offset : Nat} {srcBuf : Bytes}
    (h : g.Opens opened) :
    dlFlashWrite g written opened path offset srcBuf m =
      (written.ret, (m.log (.flashWrite path offset srcBuf)).store path offset
        (srcBuf.take (written.reached srcBuf.length))) := by
  simp [dlFlashWrite, h.1, Int.not_lt.mpr h.2]

theorem dlFlashClose_opens (h : g.Opens opened) :
    dlFlashClose g opened path m = m.log (.flashClose path) := by
  simp [dlFlashClose, h.1, Int.not_lt.mpr h.2]

end
end LinuxOta
