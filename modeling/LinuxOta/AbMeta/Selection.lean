-- SUMMARY: The slot a record selects: both copies of `get_current_slot`, their agreement, and the selection rule they implement.
import LinuxOta.AbMeta.Checksum
import Mathlib.Tactic.SplitIfs

namespace LinuxOta

/-! # Slot selection

`get_current_slot` exists twice, in ab_meta and in ota. Its static variable
`last_slot_index` only decides whether a log line is printed and is left out.
The return code -1 is `none`. -/

/-! ## ab_meta -/

namespace AbMeta

/-- `slot_is_bootable`. -/
def slotIsBootable (slot : SlotData) : Bool :=
  slot.priority > 0 && (slot.successfulBoot > 0 || slot.triesRemaining > 0)

/-- `get_current_slot`. -/
def getCurrentSlot (d : AbData) : Option Slot :=
  if slotIsBootable (d.slots .a) && slotIsBootable (d.slots .b) then
    if (d.slots .b).priority > (d.slots .a).priority then some .b else some .a
  else if slotIsBootable (d.slots .a) then
    some .a
  else if slotIsBootable (d.slots .b) then
    some .b
  -- no bootable slot: `get_lastboot`
  else if d.lastBoot = 0 then
    some .a
  else if d.lastBoot = 1 then
    some .b
  else
    none

end AbMeta

/-! ## ota -/

namespace Bootloader

/-- `slot_is_bootable`. -/
def slotIsBootable (slot : SlotData) : Bool :=
  slot.priority > 0 && (slot.successfulBoot ≠ 0 || slot.triesRemaining > 0)

/-- `get_current_slot`. -/
def getCurrentSlot (d : AbData) : Option Slot :=
  if slotIsBootable (d.slots .a) && slotIsBootable (d.slots .b) then
    if (d.slots .b).priority > (d.slots .a).priority then some .b else some .a
  else if slotIsBootable (d.slots .a) then
    some .a
  else if slotIsBootable (d.slots .b) then
    some .b
  else if d.lastBoot = 0 then
    some .a
  else if d.lastBoot = 1 then
    some .b
  else
    none

theorem slotIsBootable_eq : slotIsBootable = AbMeta.slotIsBootable := by
  funext slot
  have hpos : (slot.successfulBoot ≠ 0) ↔ slot.successfulBoot > 0 := UInt8.pos_iff_ne_zero.symm
  simp only [slotIsBootable, AbMeta.slotIsBootable, hpos]

/-- Both copies select alike. -/
theorem getCurrentSlot_eq : getCurrentSlot = AbMeta.getCurrentSlot := by
  funext d
  simp only [getCurrentSlot, AbMeta.getCurrentSlot, slotIsBootable_eq]

end Bootloader

/-! ## The selection rule -/

namespace AbData

/-- Slot `s` may be booted. -/
def Bootable (d : AbData) (s : Slot) : Prop :=
  0 < (d.slots s).priority ∧ (0 < (d.slots s).successfulBoot ∨ 0 < (d.slots s).triesRemaining)

instance (d : AbData) (s : Slot) : Decidable (d.Bootable s) :=
  inferInstanceAs (Decidable (_ ∧ _))

/-- Slot `s` goes before slot `t`: it has the higher priority, or the same one and
is slot `a`. -/
def Outranks (d : AbData) (s t : Slot) : Prop :=
  (d.slots t).priority < (d.slots s).priority ∨ (d.slots t).priority = (d.slots s).priority ∧ s = .a

/-- The slot the boot loader is to start. -/
def Selects (d : AbData) (s : Slot) : Prop :=
  AbMeta.getCurrentSlot d = some s

instance (d : AbData) (s : Slot) : Decidable (d.Selects s) :=
  inferInstanceAs (Decidable (_ = _))

/-- Only the slots and `last_boot` matter for the selection. -/
theorem selects_congr {d d' : AbData} {s : Slot} (hslots : d'.slots = d.slots)
    (hboot : d'.lastBoot = d.lastBoot) : d'.Selects s ↔ d.Selects s := by
  simp only [Selects, AbMeta.getCurrentSlot, hslots, hboot]

theorem Selects.unique {d : AbData} {s t : Slot} (h : d.Selects s) (h' : d.Selects t) : t = s :=
  Option.some.inj (h'.symm.trans h)

theorem slotIsBootable_iff (d : AbData) (s : Slot) :
    AbMeta.slotIsBootable (d.slots s) = true ↔ d.Bootable s := by
  simp [AbMeta.slotIsBootable, Bootable]

/-- A record selects a bootable slot that outranks every other bootable one, and
falls back to `last_boot` when none is bootable. -/
theorem selects_iff (d : AbData) (s : Slot) :
    d.Selects s ↔
      (d.Bootable s ∧ (d.Bootable s.other → d.Outranks s s.other)) ∨
      (¬ d.Bootable s ∧ ¬ d.Bootable s.other ∧ d.lastBoot = s.index) := by
  simp only [Selects, AbMeta.getCurrentSlot, Bool.and_eq_true, slotIsBootable_iff]
  cases s with
  | a =>
    simp only [Slot.other, Slot.index, Outranks]
    by_cases ha : d.Bootable .a <;> by_cases hb : d.Bootable .b <;> simp [ha, hb]
    -- both bootable: a tie goes to slot `a`
    simp only [UInt8.le_iff_toNat_le, UInt8.lt_iff_toNat_lt, ← UInt8.toNat_inj]
    omega
  | b =>
    simp only [Slot.other, Slot.index, Outranks]
    by_cases ha : d.Bootable .a <;> by_cases hb : d.Bootable .b <;> simp [ha, hb]
    by_cases h₀ : d.lastBoot = 0 <;> simp [h₀]

/-- A record whose `last_boot` names a slot selects one. -/
theorem exists_selects {d : AbData} {s : Slot} (h : d.lastBoot = s.index) : ∃ t, d.Selects t := by
  cases hslot : AbMeta.getCurrentSlot d with
  | some t => exact ⟨t, hslot⟩
  | none =>
    simp only [AbMeta.getCurrentSlot, h] at hslot
    cases s <;> simp [Slot.index] at hslot <;> split_ifs at hslot

end AbData
end LinuxOta
