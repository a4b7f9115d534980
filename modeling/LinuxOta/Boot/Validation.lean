-- SUMMARY: Which operations reject a corrupt record: none looks at the checksum, and a wrong magic is no error.
import LinuxOta.AbMeta.LastBoot
import LinuxOta.Ota.Bootloader

namespace LinuxOta

/-! # Corrupt records -/

/-- The magic is wrong, or the stored checksum is not that of the record. -/
def AbData.Corrupt (d : AbData) : Prop :=
  d.magic ≠ abMagic ∨ d.crc32.toList ≠ bigEndianBytes (LinuxOta.crc32 0 d.body)

instance (d : AbData) : Decidable d.Corrupt :=
  inferInstanceAs (Decidable (_ ∨ _))

/-- The operations that read the record, change it and write it back. -/
inductive RecordOp where
  | activeCurrentSlot
  | activeAnotherSlot
  | setSlotSucceed (build : Build)
  | setSlotActivity
  deriving DecidableEq, Repr

/-- What the calls made by an operation answer, in either module. -/
structure OpAnswers where
  abMeta : AbMeta.MetaAnswers
  ota : Bootloader.SlotAnswers

namespace RecordOp

def exec (g : FlashCtrl) (host : Endian) (answers : OpAnswers) (m : Machine) :
    RecordOp → Int × Machine
  | activeCurrentSlot => AbMeta.activeCurrentSlot g host answers.abMeta m
  | activeAnotherSlot => AbMeta.activeAnotherSlot g host answers.abMeta m
  | setSlotSucceed build => Bootloader.setSlotSucceed host build answers.ota m
  | setSlotActivity => Bootloader.setSlotActivity host answers.ota m

/-- Whatever the calls it makes answer, the operation returns an error and leaves the
region of the record. -/
def Rejects (g : FlashCtrl) (host : Endian) (m : Machine) (op : RecordOp) : Prop :=
  ∀ answers, (op.exec g host answers m).1 < 0 ∧
    ((op.exec g host answers m).2.devs miscPath).read metaDataOffset 32 =
      (m.devs miscPath).read metaDataOffset 32

/-- There is no way for the operation to get to its write: in ab_meta the flash layer was
not initialised, in ota the record selects no slot. -/
def GivesUp (g : FlashCtrl) (m : Machine) : RecordOp → Prop
  | activeCurrentSlot => g.isInit = false
  | activeAnotherSlot => g.isInit = false
  | setSlotSucceed _ => Bootloader.getCurrentSlot m.record = none
  | setSlotActivity => Bootloader.getCurrentSlot m.record = none

/-- Answers with which every operation goes through. An empty command line stands for
slot `a`. -/
def healthyAnswers : OpAnswers where
  abMeta := { AbMeta.MetaAnswers.healthy with cmdline := ⟨true, 0⟩ }
  ota := ⟨.filled, .stored⟩

variable {g : FlashCtrl} {host : Endian} {m : Machine} {op : RecordOp}

/-- An operation that gives up returns -1 and leaves misc as it was. -/
private theorem rejects_of_effect {write : RecordWrite} {r : Int × Machine}
    (h : RecordEffect write none m r) :
    r.1 < 0 ∧ (r.2.devs miscPath).read metaDataOffset 32 = (m.devs miscPath).read metaDataOffset 32 := by
  rw [h.ret, h.devs, Function.update_self]
  exact ⟨(by decide : (-1 : Int) < 0), rfl⟩

theorem GivesUp.rejects (h : op.GivesUp g m) : op.Rejects g host m := by
  intro answers
  cases op with
  | activeCurrentSlot =>
    have hnone : answers.abMeta.confirmed g m = none :=
      if_neg fun ho => Bool.false_ne_true (h.symm.trans ho.1.1)
    exact rejects_of_effect (hnone ▸ AbMeta.activeCurrentSlot_effect host)
  | activeAnotherSlot =>
    have hnone : answers.abMeta.switched g m = none :=
      if_neg fun ho => Bool.false_ne_true (h.symm.trans ho.1.1)
    exact rejects_of_effect (hnone ▸ AbMeta.activeAnotherSlot_effect host)
  | setSlotSucceed build =>
    have hnone : answers.ota.confirmed build m = none := by
      simp only [Bootloader.SlotAnswers.confirmed,
        show Bootloader.getCurrentSlot m.record = none from h]
      simp
    have hret : (Bootloader.setSlotSucceed host build answers.ota m).1 = -1 := by
      by_cases hread : answers.ota.read = .filled
      · simp only [Bootloader.setSlotSucceed, Bootloader.setSlotSucceedBy, Bootloader.readABMisc_filled hread,
          show Bootloader.getCurrentSlot m.record = none from h]
      · simp only [Bootloader.setSlotSucceed, Bootloader.setSlotSucceedBy, Bootloader.readABMisc_failed hread]
    have hchange : RecordChange answers.ota.write.onRecord (answers.ota.confirmed build m) m
        (Bootloader.setSlotSucceed host build answers.ota m).2 := Bootloader.setSlotSucceed_change
    rw [hnone] at hchange
    exact rejects_of_effect ⟨hchange, hret⟩
  | setSlotActivity =>
    have hnone : answers.ota.switched m = none := by
      simp only [Bootloader.SlotAnswers.switched,
        show Bootloader.getCurrentSlot m.record = none from h]
      simp
    exact rejects_of_effect (hnone ▸ Bootloader.setSlotActivity_effect host)

/-- An operation that can get to its write reports success when all calls go through. -/
theorem exec_healthy (h : ¬ op.GivesUp g m) : (op.exec g host healthyAnswers m).1 = 0 := by
  have hret : ∀ {write : RecordWrite} {d : AbData}, write.ret = 0 → handedRet write (some d) = 0 := id
  cases op with
  | activeCurrentSlot =>
    have hopens : g.Opens 3 := ⟨by simpa [GivesUp] using h, by decide⟩
    have hsome : healthyAnswers.abMeta.confirmed g m =
        some (AbMeta.confirmedRecord (AbMeta.bufferAfter .filled m)) :=
      if_pos ⟨hopens, by decide, hopens⟩
    rw [exec, (AbMeta.activeCurrentSlot_effect host).ret, hsome]
    exact hret rfl
  | activeAnotherSlot =>
    have hopens : g.Opens 3 := ⟨by simpa [GivesUp] using h, by decide⟩
    have hslot : AbMeta.getRunningSlot ⟨true, 0⟩ m = some .a := by
      rw [AbMeta.getRunningSlot_eq_some_iff]
      exact ⟨rfl, .inl ⟨by simp [AbMeta.cmdlineBuffer], rfl⟩⟩
    have hsome : healthyAnswers.abMeta.switched g m =
        some (AbMeta.switchedRecord (AbMeta.bufferAfter .filled m) .a) :=
      AbMeta.MetaAnswers.switched_eq_some_iff.mpr ⟨⟨hopens, by decide, hopens⟩, .a, hslot, rfl⟩
    rw [exec, (AbMeta.activeAnotherSlot_effect host).ret, hsome]
    exact hret rfl
  | setSlotSucceed build =>
    obtain ⟨nowSlot, hslot⟩ := Option.ne_none_iff_exists'.mp h
    by_cases hmagic : m.record.magic = abMagic
    · have hsome : healthyAnswers.ota.confirmed build m =
          some (m.record.confirm build nowSlot).refreshCrc := by
        simp [Bootloader.SlotAnswers.confirmed, healthyAnswers, hmagic, hslot,
          Bootloader.MiscWriteAnswer.opened]
      rw [exec, (Bootloader.setSlotSucceed_effect hmagic).ret, hsome]
      exact hret rfl
    · rw [exec, Bootloader.setSlotSucceed_wrongMagic rfl hslot hmagic]
  | setSlotActivity =>
    obtain ⟨nowSlot, hslot⟩ := Option.ne_none_iff_exists'.mp h
    have hsome : healthyAnswers.ota.switched m = some (m.record.switchFrom nowSlot).refreshCrc := by
      simp [Bootloader.SlotAnswers.switched, healthyAnswers, hslot,
        Bootloader.MiscWriteAnswer.opened]
    rw [exec, (Bootloader.setSlotActivity_effect host).ret, hsome]
    exact hret rfl

theorem rejects_iff : op.Rejects g host m ↔ op.GivesUp g m := by
  refine ⟨fun hrejects => ?_, GivesUp.rejects⟩
  by_contra hgoes
  have hneg := (hrejects healthyAnswers).1
  rw [exec_healthy hgoes] at hneg
  exact absurd hneg (by decide)

end RecordOp

/-- An operation rejects a corrupt record exactly when it could not get to its write in any
case. -/
theorem corrupt_record_rejected_iff (g : FlashCtrl) (host : Endian) (m : Machine) (op : RecordOp) :
    (m.record.Corrupt → op.Rejects g host m) ↔ (m.record.Corrupt → op.GivesUp g m) :=
  imp_congr_right fun _ => RecordOp.rejects_iff

/-- A record with the right magic and no checksum is switched, and carries a valid checksum
afterwards. -/
theorem corrupt_record_certified :
    (deviceOn .a).record.Corrupt ∧
    (RecordOp.setSlotActivity.exec ⟨true, 512⟩ .little RecordOp.healthyAnswers (deviceOn .a)).1 = 0 ∧
    ¬ (RecordOp.setSlotActivity.exec ⟨true, 512⟩ .little RecordOp.healthyAnswers
      (deviceOn .a)).2.record.Corrupt ∧
    ¬ ∀ (g : FlashCtrl) (host : Endian) (m : Machine) (op : RecordOp),
      m.record.Corrupt → op.Rejects g host m := by
  have hcorrupt : (deviceOn .a).record.Corrupt := by decide +kernel
  have hret : (RecordOp.setSlotActivity.exec ⟨true, 512⟩ .little RecordOp.healthyAnswers
      (deviceOn .a)).1 = 0 := by decide +kernel
  refine ⟨hcorrupt, hret, by decide +kernel, fun hall => ?_⟩
  have hneg := (hall ⟨true, 512⟩ .little _ .setSlotActivity hcorrupt RecordOp.healthyAnswers).1
  rw [hret] at hneg
  exact absurd hneg (by decide)

end LinuxOta
