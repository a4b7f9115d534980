-- SUMMARY: The 32-byte A/B record: slots, per-slot fields, and its layout in memory and on flash.
import LinuxOta.Base.Bytes
import Mathlib.Data.Vector.Basic

namespace LinuxOta

/-! # The A/B record

`rk_ab_meta_data_t` (ab_meta) and `AvbABData` (ota) declare the same 32 bytes.
Both are modelled by `AbData`. -/

/-- The two boot slots. The source counts them: slot 0 is `a`, slot 1 is `b`. -/
inductive Slot where
  | a
  | b
  deriving DecidableEq, Repr

namespace Slot

/-- `1 - slot`, `!slot`. -/
def other : Slot → Slot
  | a => b
  | b => a

/-- The slot as the number stored in `last_boot`. -/
def index : Slot → UInt8
  | a => 0
  | b => 1

/-- `rk_ab_meta_get_suffix_by_slot`. -/
def suffix : Slot → Char
  | a => 'a'
  | b => 'b'

@[simp] theorem other_other (s : Slot) : s.other.other = s := by cases s <;> rfl
@[simp] theorem other_ne (s : Slot) : s.other ≠ s := by cases s <;> decide
@[simp] theorem ne_other (s : Slot) : s ≠ s.other := by cases s <;> decide

theorem eq_or_eq_other (s t : Slot) : t = s ∨ t = s.other := by
  cases s <;> cases t <;> decide

theorem ne_iff_eq_other {s t : Slot} : s ≠ t ↔ s = t.other := by
  cases s <;> cases t <;> decide

theorem suffix_injective : Function.Injective suffix := by
  intro s t h
  cases s <;> cases t <;> first | rfl | exact absurd h (by decide)

theorem index_injective : Function.Injective index := by
  intro s t h
  cases s <;> cases t <;> first | rfl | exact absurd h (by decide)

end Slot

/-- The name of the partition at `path` carries the suffix of slot `s`. -/
def CarriesSuffix (path : String) (s : Slot) : Prop :=
  ['_', s.suffix] <:+ path.toList

instance (path : String) (s : Slot) : Decidable (CarriesSuffix path s) :=
  inferInstanceAs (Decidable (_ <:+ _))

/-- The partitions that exist once a slot, in the order they are flashed. -/
inductive Part where
  | uboot
  | boot
  | system
  deriving DecidableEq, Repr

/-- `UPGRADE_UBOOT_NAME`, `UPGRADE_BOOT_NAME`, `UPGRADE_ROOTFS_NAME`; `AB_UBOOT_NAME`,
`AB_BOOT_NAME`, `AB_ROOTFS_NAME`. -/
def Part.name : Part → String
  | uboot => "uboot"
  | boot => "boot"
  | system => "system"

/-- `rk_ab_slot_data_t`, `AvbABSlotData`. -/
structure SlotData where
  priority : UInt8
  triesRemaining : UInt8
  successfulBoot : UInt8
  reserved : UInt8
  deriving DecidableEq, Repr

def SlotData.toBytes (v : SlotData) : Bytes :=
  [v.priority, v.triesRemaining, v.successfulBoot, v.reserved]

/-- `rk_ab_meta_data_t`, `AvbABData`. The fields `slotA` and `slotB` are the array
`slots[2]`; `crc32` is the `unsigned int` by its four bytes in memory order. -/
structure AbData where
  magic : Vector UInt8 4
  versionMajor : UInt8
  versionMinor : UInt8
  reserved1 : Vector UInt8 2
  slotA : SlotData
  slotB : SlotData
  lastBoot : UInt8
  reserved2 : Vector UInt8 11
  crc32 : Vector UInt8 4
  deriving DecidableEq, Repr

/-- `AB_META_MAGIC`, `AVB_AB_MAGIC`: the string "\0AB0". -/
def abMagic : Vector UInt8 4 := #v[0x00, 0x41, 0x42, 0x30]

/-- `AB_META_MAX_PRIORITY`, `AVB_AB_MAX_PRIORITY`. -/
def maxPriority : UInt8 := 15

/-- `AB_META_MAX_TRIES_REMAINING`, `AVB_AB_MAX_TRIES_REMAINING`. -/
def maxTriesRemaining : UInt8 := 7

namespace AbData

/-- `slots[s]`. -/
def slots (d : AbData) : Slot → SlotData
  | .a => d.slotA
  | .b => d.slotB

/-- The record with `slots[s]` replaced by `v`. -/
def setSlot (d : AbData) (s : Slot) (v : SlotData) : AbData :=
  match s with
  | .a => { d with slotA := v }
  | .b => { d with slotB := v }

/-- The record with `last_boot` replaced by `v`. -/
def setLastBoot (d : AbData) (v : UInt8) : AbData := { d with lastBoot := v }

@[simp] theorem slots_setSlot_self (d : AbData) (s : Slot) (v : SlotData) :
    (d.setSlot s v).slots s = v := by cases s <;> rfl

@[simp] theorem slots_setSlot_other (d : AbData) (s : Slot) (v : SlotData) :
    (d.setSlot s v).slots s.other = d.slots s.other := by cases s <;> rfl

@[simp] theorem slots_setSlot_of_other (d : AbData) (s : Slot) (v : SlotData) :
    (d.setSlot s.other v).slots s = d.slots s := by cases s <;> rfl

@[simp] theorem lastBoot_setSlot (d : AbData) (s : Slot) (v : SlotData) :
    (d.setSlot s v).lastBoot = d.lastBoot := by cases s <;> rfl

@[simp] theorem magic_setSlot (d : AbData) (s : Slot) (v : SlotData) :
    (d.setSlot s v).magic = d.magic := by cases s <;> rfl

@[simp] theorem slots_setLastBoot (d : AbData) (v : UInt8) :
    (d.setLastBoot v).slots = d.slots := by funext s; cases s <;> rfl

@[simp] theorem lastBoot_setLastBoot (d : AbData) (v : UInt8) :
    (d.setLastBoot v).lastBoot = v := rfl
@[simp] theorem magic_setLastBoot (d : AbData) (v : UInt8) :
    (d.setLastBoot v).magic = d.magic := rfl

@[simp] theorem slots_crc32 (d : AbData) (v : Vector UInt8 4) :
    ({ d with crc32 := v } : AbData).slots = d.slots := by funext s; cases s <;> rfl

/-! ## Layout -/

/-- Bytes 0..27, which the checksum covers. -/
def body (d : AbData) : Bytes :=
  d.magic.toList ++ [d.versionMajor, d.versionMinor] ++ d.reserved1.toList ++
    d.slotA.toBytes ++ d.slotB.toBytes ++ [d.lastBoot] ++ d.reserved2.toList

/-- The whole record as it lies in memory. -/
def toBytes (d : AbData) : Bytes :=
  d.body ++ d.crc32.toList

/-- The record that lies in a 32-byte buffer. -/
def ofBytes (b : Bytes) : AbData where
  magic := .ofFn fun i : Fin 4 => b.getD i 0
  versionMajor := b.getD 4 0
  versionMinor := b.getD 5 0
  reserved1 := .ofFn fun i : Fin 2 => b.getD (6 + i) 0
  slotA := ⟨b.getD 8 0, b.getD 9 0, b.getD 10 0, b.getD 11 0⟩
  slotB := ⟨b.getD 12 0, b.getD 13 0, b.getD 14 0, b.getD 15 0⟩
  lastBoot := b.getD 16 0
  reserved2 := .ofFn fun i : Fin 11 => b.getD (17 + i) 0
  crc32 := .ofFn fun i : Fin 4 => b.getD (28 + i) 0

@[simp] theorem body_length (d : AbData) : d.body.length = 28 := by
  simp [body, SlotData.toBytes]

@[simp] theorem toBytes_length (d : AbData) : d.toBytes.length = 32 := by
  simp [toBytes]

/-- Every record is read back from its own bytes. -/
theorem ofBytes_toBytes (d : AbData) : ofBytes d.toBytes = d := by
  obtain ⟨⟨⟨m⟩, hm⟩, _, _, ⟨⟨r⟩, hr⟩, ⟨_, _, _, _⟩, ⟨_, _, _, _⟩, _, ⟨⟨r'⟩, hr'⟩, ⟨⟨c⟩, hc⟩⟩ := d
  match m, hm, r, hr, r', hr', c, hc with
  | [_, _, _, _], _, [_, _], _, [_, _, _, _, _, _, _, _, _, _, _], _, [_, _, _, _], _ => rfl

/-- Every 32-byte buffer is the bytes of the record in it. -/
theorem toBytes_ofBytes {b : Bytes} (h : b.length = 32) : (ofBytes b).toBytes = b := by
  have hfields : (ofBytes b).toBytes = (List.range 32).map fun i => b.getD i 0 := rfl
  rw [hfields]
  apply List.ext_getElem
  · simp [h]
  · intro i _ hi
    simp [List.getD, hi]

end AbData
end LinuxOta
