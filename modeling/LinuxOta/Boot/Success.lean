-- SUMMARY: What `setSlotSucceed` has done when it reports success, in every build configuration.
import LinuxOta.Boot.Switching
import LinuxOta.Boot.Validation

namespace LinuxOta

/-! # A reported success

`setSlotSucceed` returns 0 when its write went through, and also when the magic is wrong:
it returns `false` there. On a block device a record may be read from, and written to, the
beginning of misc: the result of `fseek` is dropped. -/

namespace AbData

variable {d : AbData} {build : Build} {s : Slot}

@[simp] theorem priority_confirm (d : AbData) (build : Build) (s : Slot) :
    ((d.confirm build s).slots s).priority = maxPriority := by
  by_cases h : (d.slots s).priority = maxPriority <;>
    cases hs : build.successfulBoot <;> cases hr : build.retryBoot <;> simp [confirm, h, hs, hr]

/-- A slot that could be booted before it was confirmed has something to boot with after
it. -/
theorem confirm_keeps (h : d.Bootable s) :
    0 < ((d.confirm build s).slots s).successfulBoot ∨
      0 < ((d.confirm build s).slots s).triesRemaining := by
  cases hr : build.retryBoot with
  | true => exact .inr (by simp [confirm, hr, maxTriesRemaining])
  | false =>
    cases hs : build.successfulBoot with
    | true => exact .inl (by simp [confirm, hs, hr])
    | false =>
      by_cases hprio : (d.slots s).priority = maxPriority <;> simpa [confirm, hs, hr, hprio] using h.2

/-- Confirming twice is confirming once. -/
theorem confirm_confirm (d : AbData) (build : Build) (s : Slot) :
    (d.confirm build s).confirm build s = d.confirm build s := by
  obtain ⟨sb, rb⟩ := build
  by_cases hprio : (d.slots s).priority = maxPriority <;> cases s <;> cases sb <;> cases rb <;>
    simp_all [confirm, setSlot, setLastBoot, slots]

/-- The assignments neither read nor write the checksum. -/
theorem refreshCrc_confirm_refreshCrc (d : AbData) (build : Build) (s : Slot) :
    (d.refreshCrc.confirm build s).refreshCrc = (d.confirm build s).refreshCrc := by
  cases s <;> rfl

theorem not_corrupt_refreshCrc (hmagic : d.magic = abMagic) : ¬ d.refreshCrc.Corrupt := by
  rw [Corrupt, magic_refreshCrc, hmagic, body_refreshCrc, not_or, not_not, not_not]
  exact ⟨rfl, store_big_toList _⟩

end AbData

namespace Bootloader

variable {host : Endian} {build : Build} {a : SlotAnswers} {m : Machine} {s : Slot}

/-- Misc holds a sound record whose slot `s` is confirmed: it has the highest priority, and
`last_boot` names it. -/
structure HoldsConfirmed (s : Slot) (d : AbData) : Prop where
  sound : ¬ d.Corrupt
  priority : (d.slots s).priority = maxPriority
  lastBoot : d.lastBoot = s.index

theorem record_of_selects (hmagic : m.record.magic = abMagic) (hselects : m.record.Selects s)
    (hret : (setSlotSucceed host build a m).1 = 0) :
    (setSlotSucceed host build a m).2.record = (m.record.confirm build s).refreshCrc := by
  obtain ⟨now, hnow, hrecord⟩ := setSlotSucceed_success hmagic hret
  rw [hrecord, hselects.unique hnow]

/-- What `setSlotSucceed` stores is confirmed. -/
theorem holdsConfirmed_confirm {d : AbData} (hmagic : d.magic = abMagic) (s : Slot) :
    HoldsConfirmed s (d.confirm build s).refreshCrc :=
  ⟨AbData.not_corrupt_refreshCrc (by rw [AbData.magic_confirm, hmagic]), by simp, by simp⟩

/-- The record that `setSlotSucceed` works on. -/
def SeekAnswers.recordRead (a : SeekAnswers) (m : Machine) : AbData :=
  AbData.ofBytes ((m.devs miscPath).read (seekPos a.readSeek) 32)

/-- 0 is returned. -/
def MiscWriteAnswer.stores : MiscWriteAnswer → Bool
  | stored => true
  | _ => false

/-- Misc holds a confirmed record of the slot that the record in `m` selects. -/
def Confirms (m m' : Machine) : Prop := ∃ s, m.record.Selects s ∧ HoldsConfirmed s m'.record

variable {b : SeekAnswers} {now : Slot}

theorem setSlotSucceedSeeking_fails (h : b.read = .failed ∨ ∀ s, ¬ (b.recordRead m).Selects s) :
    (setSlotSucceedSeeking host build b m).1 = -1 := by
  cases hread : b.read with
  | failed => simp [setSlotSucceedSeeking, setSlotSucceedBy, readABMiscAt, hread]
  | filled =>
    have hnone : getCurrentSlot (b.recordRead m) = none := by
      rw [getCurrentSlot_eq]
      exact Option.eq_none_iff_forall_ne_some.mpr (h.resolve_left (by simp [hread]))
    rw [SeekAnswers.recordRead] at hnone
    simp [setSlotSucceedSeeking, setSlotSucceedBy, readABMiscAt, hread, hnone]

variable (host build) in
/-- The exit for a wrong magic: 0 is returned and misc is as it was. -/
theorem setSlotSucceedSeeking_wrongMagic (hread : b.read = .filled) (hselects : (b.recordRead m).Selects now)
    (hmagic : (b.recordRead m).magic ≠ abMagic) :
    (setSlotSucceedSeeking host build b m).1 = 0 ∧
      (setSlotSucceedSeeking host build b m).2.record = m.record := by
  have hslot : getCurrentSlot (b.recordRead m) = some now := getCurrentSlot_eq ▸ hselects
  rw [SeekAnswers.recordRead] at hslot hmagic
  simp [setSlotSucceedSeeking, setSlotSucceedBy, readABMiscAt, hread, hslot, hmagic, Machine.record]

variable (host build) in
/-- On a record with the right magic the call returns what the write does, and a write that
goes through stores the confirmed record where `fseek` has left the position. -/
theorem setSlotSucceedSeeking_rightMagic (hread : b.read = .filled)
    (hselects : (b.recordRead m).Selects now) (hmagic : (b.recordRead m).magic = abMagic) :
    ((setSlotSucceedSeeking host build b m).1 = 0 ↔ b.write.stores = true) ∧
      (b.write.stores = true → (setSlotSucceedSeeking host build b m).2.record =
        recordAt ((m.devs miscPath).overwrite (seekPos b.writeSeek)
          ((b.recordRead m).confirm build now).refreshCrc.toBytes)) := by
  have hslot : getCurrentSlot (b.recordRead m) = some now := getCurrentSlot_eq ▸ hselects
  rw [SeekAnswers.recordRead] at hslot hmagic
  cases hwrite : b.write with
  | stored =>
    simp [setSlotSucceedSeeking, setSlotSucceedBy, readABMiscAt, hread, hslot, hmagic, writeABMiscAt, hwrite,
      MiscWriteAnswer.stores, avbUpdateCrc_eq, Machine.record, SeekAnswers.recordRead]
  | notOpened =>
    simp [setSlotSucceedSeeking, setSlotSucceedBy, readABMiscAt, hread, hslot, hmagic, writeABMiscAt, hwrite,
      MiscWriteAnswer.stores]
  | failed left =>
    simp [setSlotSucceedSeeking, setSlotSucceedBy, readABMiscAt, hread, hslot, hmagic, writeABMiscAt, hwrite,
      MiscWriteAnswer.stores]

/-- What is written to the beginning of misc leaves the record. -/
theorem recordAt_overwrite_beginning (misc : Content) (d : AbData) :
    recordAt (misc.overwrite (seekPos false) d.toBytes) = recordAt misc := by
  rw [recordAt, recordAt, Content.read_congr fun j hj _ => Content.overwrite_after ?_]
  rw [d.toBytes_length]
  simp only [seekPos, metaDataOffset] at hj ⊢
  simp
  omega

end Bootloader

open Bootloader

/-- A success means that the selected slot was confirmed exactly when the call fails (nothing
is read, what is read selects no slot, or it has the right magic and is not stored), or what
was read has the right magic, selects the slot that the record selects and is stored over it,
or, where the record is left alone, it was confirmed already. -/
theorem setSlotSucceed_reports_iff (host : Endian) (build : Build) (a : SeekAnswers) (m : Machine) :
    ((setSlotSucceedSeeking host build a m).1 = 0 → Confirms m (setSlotSucceedSeeking host build a m).2) ↔
      a.read = .failed ∨ (∀ s, ¬ (a.recordRead m).Selects s) ∨
        ((a.recordRead m).magic = abMagic ∧ a.write.stores = false) ∨
        if (a.recordRead m).magic = abMagic ∧ a.writeSeek = true then
          ∃ s, m.record.Selects s ∧ (a.recordRead m).Selects s
        else Confirms m m := by
  by_cases hfails : a.read = .failed ∨ ∀ s, ¬ (a.recordRead m).Selects s
  · have hret : (setSlotSucceedSeeking host build a m).1 = -1 := setSlotSucceedSeeking_fails hfails
    refine iff_of_true (fun h => absurd (hret.symm.trans h) (by decide)) ?_
    rcases hfails with h | h
    · exact .inl h
    · exact .inr (.inl h)
  obtain ⟨hread, hselects⟩ := not_or.mp hfails
  rw [or_iff_right hread, or_iff_right hselects]
  have hfilled : a.read = .filled := by
    cases h : a.read with
    | filled => rfl
    | failed => exact absurd h hread
  obtain ⟨now, hnow⟩ := not_forall_not.mp hselects
  by_cases hmagic : (a.recordRead m).magic = abMagic
  swap
  · obtain ⟨hret, hrecord⟩ := setSlotSucceedSeeking_wrongMagic host build hfilled hnow hmagic
    rw [or_iff_right fun h => hmagic h.1, if_neg fun h => hmagic h.1, hret, Confirms, hrecord]
    exact forall_prop_of_true rfl
  obtain ⟨hret, hrecord⟩ := setSlotSucceedSeeking_rightMagic host build hfilled hnow hmagic
  simp only [hret, hmagic, true_and]
  cases hstores : a.write.stores with
  | false => simp
  | true =>
    rw [or_iff_right (by simp), forall_prop_of_true rfl, Confirms, hrecord hstores]
    cases hseek : a.writeSeek with
    | false =>
      rw [recordAt_overwrite_beginning, if_neg (by simp)]
      rfl
    | true =>
      rw [if_pos rfl]
      have hplace : recordAt ((m.devs miscPath).overwrite (seekPos true)
          ((a.recordRead m).confirm build now).refreshCrc.toBytes) =
            ((a.recordRead m).confirm build now).refreshCrc := recordAt_overwrite _ _
      rw [hplace]
      constructor
      · rintro ⟨s, hs, hconfirmed⟩
        obtain rfl : s = now := by
          have hboot := hconfirmed.lastBoot
          rw [AbData.lastBoot_refreshCrc, AbData.lastBoot_confirm] at hboot
          exact Slot.index_injective hboot.symm
        exact ⟨s, hs, hnow⟩
      · rintro ⟨s, hs, hs'⟩
        obtain rfl : s = now := AbData.Selects.unique hnow hs'
        exact ⟨s, hs, holdsConfirmed_confirm hmagic s⟩

/-- On a misc partition of zeros the call returns 0 and writes nothing. -/
theorem setSlotSucceed_reports_unconfirmed :
    ¬ ∀ (host : Endian) (build : Build) (a : SeekAnswers) (m : Machine),
      (setSlotSucceedSeeking host build a m).1 = 0 →
        Confirms m (setSlotSucceedSeeking host build a m).2 := by
  intro h
  obtain ⟨s, -, hconfirmed⟩ := h .little cmakeBuild ⟨faultless, true, true⟩
    { deviceOn .a with devs := fun _ _ => 0 } (by decide +kernel)
  exact hconfirmed.sound (.inl (by decide +kernel))

/-- A confirmation that succeeds keeps the selection and the other slot, and confirming again
stores the same bytes. -/
theorem setSlotSucceed_stable (host : Endian) (build : Build) (a : SlotAnswers) (m : Machine)
    (s : Slot) (hmagic : m.record.magic = abMagic)
    (hpriority : ∀ t, (m.record.slots t).priority ≤ maxPriority) (hselects : m.record.Selects s)
    (hret : (setSlotSucceed host build a m).1 = 0) :
    let m' := (setSlotSucceed host build a m).2
    m'.record.Selects s ∧ m'.record.slots s.other = m.record.slots s.other ∧
      (setSlotSucceed host build faultless m').1 = 0 ∧
      ∀ a', (setSlotSucceed host build a' m').1 = 0 →
        (setSlotSucceed host build a' m').2.recordBytes = m'.recordBytes := by
  intro m'
  have hrecord : m'.record = (m.record.confirm build s).refreshCrc :=
    record_of_selects hmagic hselects hret
  have hmagic' : m'.record.magic = abMagic := by
    rw [hrecord, AbData.magic_refreshCrc, AbData.magic_confirm, hmagic]
  have hsame : m'.record.slots s.other = m.record.slots s.other := by
    rw [hrecord, AbData.slots_refreshCrc, AbData.slots_confirm_other]
  have hselects' : m'.record.Selects s := by
    refine hselects.raised hpriority ?_ hsame ?_ fun ht => ?_
    · rw [hrecord, AbData.slots_refreshCrc, AbData.priority_confirm]
    · rw [hrecord, AbData.lastBoot_refreshCrc, AbData.lastBoot_confirm]
    · rw [hrecord, AbData.slots_refreshCrc]
      exact AbData.confirm_keeps ht
  refine ⟨hselects', hsame, ?_, fun a' hret' => ?_⟩
  · have hslot : getCurrentSlot m'.record = some s := getCurrentSlot_eq ▸ hselects'
    have hconfirmed : faultless.confirmed build m' = some (m'.record.confirm build s).refreshCrc := by
      rw [SlotAnswers.confirmed, if_pos ⟨rfl, rfl, hmagic'⟩, hslot]
      rfl
    rw [(setSlotSucceed_effect hmagic').ret, hconfirmed]
    rfl
  · rw [Machine.recordBytes_eq, Machine.recordBytes_eq, record_of_selects hmagic' hselects' hret',
      hrecord, AbData.refreshCrc_confirm_refreshCrc, AbData.confirm_confirm]

theorem setSlotSucceed_stable_deviceOn :
    (setSlotSucceed .little ⟨true, false⟩ faultless (deviceOn .b)).2.record.Selects .b ∧
    (setSlotSucceed .little ⟨true, false⟩ faultless (deviceOn .b)).2.record.slotA =
      (deviceOn .b).record.slotA := by
  have hpriority : ∀ t, ((deviceOn .b).record.slots t).priority ≤ maxPriority := by
    intro t
    cases t <;> decide +kernel
  obtain ⟨hselects, hsame, -⟩ := setSlotSucceed_stable .little ⟨true, false⟩ faultless (deviceOn .b)
    .b (by decide +kernel) hpriority (by decide +kernel) (by decide +kernel)
  exact ⟨hselects, hsame⟩

end LinuxOta
