-- SUMMARY: The two operations that switch to the other slot, compared: when both store the same record.
import LinuxOta.AbMeta.LastBoot
import LinuxOta.Boot.Confirm

namespace LinuxOta

/-! # Switching, twice

`rk_ab_meta_active_another_slot` switches from the running slot and stores the return code of
its read as `last_boot`. `setSlotActivity` switches from the selected slot and leaves
`last_boot`. -/

/-- The 32 bytes of the record region of misc. -/
def Machine.recordBytes (m : Machine) : Bytes := (m.devs miscPath).read metaDataOffset 32

theorem Machine.recordBytes_eq (m : Machine) : m.recordBytes = m.record.toBytes :=
  (AbData.toBytes_ofBytes (Content.read_length _ _ _)).symm

namespace AbData

theorem toBytes_inj {d d' : AbData} : d.toBytes = d'.toBytes ↔ d = d' :=
  ⟨fun h => by rw [← d.ofBytes_toBytes, h, d'.ofBytes_toBytes], congrArg _⟩

@[simp] theorem lastBoot_switchFrom (d : AbData) (s : Slot) :
    (d.switchFrom s).lastBoot = d.lastBoot := by
  simp [switchFrom]

theorem setLastBoot_eq_self {d : AbData} {v : UInt8} (h : d.lastBoot = v) : d.setLastBoot v = d := by
  rw [← h]
  rfl

end AbData

namespace AbMeta

/-- Every call of an operation on the record goes through, and the read fills the buffer. -/
structure MetaAnswers.AllThrough (a : MetaAnswers) (g : FlashCtrl) : Prop where
  openRead : g.Opens a.openRead
  read : a.read = .filled
  openWrite : g.Opens a.openWrite
  write : a.write = .stored

variable {g : FlashCtrl} {host : Endian} {a : MetaAnswers} {m : Machine} {s : Slot}

theorem record_activeAnotherSlot (h : a.AllThrough g) (hrun : getRunningSlot a.cmdline m = some s) :
    (activeAnotherSlot g host a m).2.record = switchedRecord m.record s := by
  have hread : a.read ≠ .failed := by simp [h.read]
  have hswitched : a.switched g m = some (switchedRecord m.record s) :=
    MetaAnswers.switched_eq_some_iff.mpr
      ⟨⟨h.openRead, hread, h.openWrite⟩, s, hrun, by rw [bufferAfter_eq (by simp [h.read]) hread]⟩
  rw [(activeAnotherSlot_effect host).record, hswitched, h.write, recordAt_handedMisc_stored]

end AbMeta

namespace Bootloader

variable {host : Endian} {m : Machine} {s : Slot}

theorem record_setSlotActivity (h : m.record.Selects s) :
    (setSlotActivity host faultless m).2.record = (m.record.switchFrom s).refreshCrc := by
  have hslot : getCurrentSlot m.record = some s := getCurrentSlot_eq ▸ h
  have hswitched : faultless.switched m = some (m.record.switchFrom s).refreshCrc := by
    simp [SlotAnswers.switched, faultless, MiscWriteAnswer.opened, hslot]
  rw [(setSlotActivity_effect host).record, hswitched]
  exact recordAt_overwrite _ _

end Bootloader

/-- Both records are the switched one, with a `last_boot` of 0 in one of them. -/
theorem switchedRecord_eq_iff (d : AbData) (s : Slot) :
    AbMeta.switchedRecord d s = (d.switchFrom s).refreshCrc ↔ d.lastBoot = 0 := by
  constructor
  · intro h
    have hboot := congrArg AbData.lastBoot h
    simpa [AbMeta.switchedRecord] using hboot.symm
  · intro h
    rw [AbMeta.switchedRecord, AbData.setLastBoot_eq_self ((d.lastBoot_switchFrom s).trans h)]

/-- The two switches, on a record that selects the running slot, store the same bytes exactly
when `last_boot` was 0. -/
theorem switches_agree_iff (g : FlashCtrl) (host : Endian) (a : AbMeta.MetaAnswers) (m : Machine)
    (s : Slot) (hselects : m.record.Selects s)
    (hrun : AbMeta.getRunningSlot a.cmdline m = some s) (hall : a.AllThrough g) :
    (AbMeta.activeAnotherSlot g host a m).2.recordBytes =
        (Bootloader.setSlotActivity host Bootloader.faultless m).2.recordBytes ↔
      m.record.lastBoot = 0 := by
  rw [Machine.recordBytes_eq, Machine.recordBytes_eq, AbData.toBytes_inj,
    AbMeta.record_activeAnotherSlot hall hrun, Bootloader.record_setSlotActivity hselects,
    switchedRecord_eq_iff]

theorem healthy_allThrough : AbMeta.MetaAnswers.healthy.AllThrough ⟨true, 512⟩ :=
  ⟨⟨rfl, by decide⟩, rfl, ⟨rfl, by decide⟩, rfl⟩

theorem switches_agree_deviceOn :
    (AbMeta.activeAnotherSlot ⟨true, 512⟩ .little .healthy (deviceOn .a)).2.recordBytes =
      (Bootloader.setSlotActivity .little Bootloader.faultless (deviceOn .a)).2.recordBytes :=
  (switches_agree_iff ⟨true, 512⟩ .little .healthy (deviceOn .a) .a (by decide +kernel)
    (by decide +kernel) healthy_allThrough).mpr (by decide +kernel)

/-- On a device that runs from slot `b` and says so in `last_boot`, the two switches store
different records. -/
theorem switches_disagree :
    (deviceOn .b).record.Selects .b ∧
    AbMeta.getRunningSlot AbMeta.MetaAnswers.healthy.cmdline (deviceOn .b) = some .b ∧
    ¬ ∀ (g : FlashCtrl) (host : Endian) (a : AbMeta.MetaAnswers) (m : Machine) (s : Slot),
      m.record.Selects s → AbMeta.getRunningSlot a.cmdline m = some s → a.AllThrough g →
      (AbMeta.activeAnotherSlot g host a m).2.recordBytes =
        (Bootloader.setSlotActivity host Bootloader.faultless m).2.recordBytes := by
  have hselects : (deviceOn .b).record.Selects .b := by decide +kernel
  have hrun : AbMeta.getRunningSlot AbMeta.MetaAnswers.healthy.cmdline (deviceOn .b) = some .b := by
    decide +kernel
  refine ⟨hselects, hrun, fun hagree => ?_⟩
  have hbytes := hagree ⟨true, 512⟩ .little .healthy (deviceOn .b) .b hselects hrun healthy_allThrough
  exact absurd hbytes (by decide +kernel)

end LinuxOta
