-- SUMMARY: Runs of boots and of all operations on the record: it stays well formed and keeps its identity.
import Mathlib.Logic.Relation
import LinuxOta.Boot.BootLoader
import LinuxOta.Ota.Bootloader

namespace LinuxOta

/-! # Runs over the record -/

/-- Slot data that may take the place of `v₀`. -/
structure SlotData.Revises (v₀ v : SlotData) : Prop where
  priority : v.priority ≤ maxPriority
  tries : v.triesRemaining ≤ maxTriesRemaining
  reserved : v.reserved = v₀.reserved

theorem SlotData.Revises.ite {v₀ v v' : SlotData} {c : Prop} [Decidable c] (h : v₀.Revises v)
    (h' : v₀.Revises v') : v₀.Revises (if c then v else v') := by
  split
  · exact h
  · exact h'

namespace AbData

/-- The counters of the record are in range, and `last_boot` names a slot. -/
structure Valid (d : AbData) : Prop where
  priority : d.InRange
  tries : ∀ s, (d.slots s).triesRemaining ≤ maxTriesRemaining
  lastBoot : ∃ s : Slot, d.lastBoot = s.index

/-- The record is valid, and its last four bytes are the CRC-32 of the others, most
significant byte first. -/
structure WellFormed (d : AbData) : Prop extends Valid d where
  crc32 : d.crc32 = Endian.big.store (LinuxOta.crc32 0 d.body)

/-- The fields of `d₀` that no operation is to touch are the same in `d`. -/
structure KeepsIdentity (d₀ d : AbData) : Prop where
  magic : d.magic = d₀.magic
  versionMajor : d.versionMajor = d₀.versionMajor
  versionMinor : d.versionMinor = d₀.versionMinor
  reserved1 : d.reserved1 = d₀.reserved1
  reserved : ∀ s, (d.slots s).reserved = (d₀.slots s).reserved
  reserved2 : d.reserved2 = d₀.reserved2

/-- What the operations on a record that started as `d₀` have in hand. -/
structure Revises (d₀ d : AbData) : Prop extends Valid d, KeepsIdentity d₀ d

namespace Revises

variable {d₀ d : AbData}

theorem slot (h : Revises d₀ d) (s : Slot) : (d.slots s).Revises (d.slots s) :=
  ⟨h.priority s, h.tries s, rfl⟩

theorem setSlot {s : Slot} {v : SlotData} (h : Revises d₀ d) (hv : (d.slots s).Revises v) :
    Revises d₀ (d.setSlot s v) := by
  have hslots : ∀ (P : Slot → SlotData → Prop), (∀ t, P t (d.slots t)) → P s v →
      ∀ t, P t ((d.setSlot s v).slots t) := by
    intro P hP hv t
    rcases Slot.eq_or_eq_other s t with rfl | rfl
    · rwa [slots_setSlot_self]
    · rw [slots_setSlot_other]
      exact hP _
  refine ⟨⟨?_, ?_, ?_⟩, ?_, ?_, ?_, ?_, ?_, ?_⟩
  · exact hslots (fun _ v => v.priority ≤ maxPriority) h.priority hv.priority
  · exact hslots (fun _ v => v.triesRemaining ≤ maxTriesRemaining) h.tries hv.tries
  · rw [lastBoot_setSlot]
    exact h.lastBoot
  · rw [magic_setSlot, h.magic]
  · cases s <;> exact h.versionMajor
  · cases s <;> exact h.versionMinor
  · cases s <;> exact h.reserved1
  · exact hslots (fun t v => v.reserved = (d₀.slots t).reserved) h.reserved (hv.reserved.trans (h.reserved s))
  · cases s <;> exact h.reserved2

theorem setLastBoot (h : Revises d₀ d) (s : Slot) : Revises d₀ (d.setLastBoot s.index) :=
  ⟨⟨h.priority, h.tries, s, rfl⟩, h.magic, h.versionMajor, h.versionMinor, h.reserved1, h.reserved,
    h.reserved2⟩

theorem refreshCrc (h : Revises d₀ d) : Revises d₀ d.refreshCrc :=
  ⟨⟨h.priority, h.tries, h.lastBoot⟩, h.magic, h.versionMajor, h.versionMinor, h.reserved1, h.reserved,
    h.reserved2⟩

theorem wellFormed_refreshCrc (h : Revises d₀ d) : d.refreshCrc.WellFormed :=
  ⟨h.refreshCrc.toValid, rfl⟩

/-- The assignments of the switch. -/
theorem switchFrom (h : Revises d₀ d) (current : Slot) : Revises d₀ (d.switchFrom current) := by
  have hcurrent : (d.slots current).Revises { d.slots current with priority := maxPriority - 1 } :=
    ⟨(by decide : maxPriority - 1 ≤ maxPriority), h.tries current, rfl⟩
  refine (h.setSlot hcurrent).setSlot ⟨UInt8.le_refl _, UInt8.le_refl _, ?_⟩
  rw [slots_setSlot_other]

/-- The assignments of the confirmation, under any macros. -/
theorem confirm (h : Revises d₀ d) (build : Build) (nowSlot : Slot) :
    Revises d₀ (d.confirm build nowSlot) := by
  let v := d.slots nowSlot
  let v₁ := if v.priority ≠ maxPriority then { v with priority := maxPriority } else v
  let v₂ := if build.successfulBoot then { v₁ with triesRemaining := 0, successfulBoot := 1 } else v₁
  let v₃ := if build.retryBoot then { v₂ with triesRemaining := maxTriesRemaining, successfulBoot := 0 } else v₂
  have h₁ : v.Revises v₁ := .ite ⟨UInt8.le_refl _, h.tries nowSlot, rfl⟩ (h.slot nowSlot)
  have h₂ : v.Revises v₂ := .ite ⟨h₁.priority, (by decide : 0 ≤ maxTriesRemaining), h₁.reserved⟩ h₁
  have h₃ : v.Revises v₃ := .ite ⟨h₂.priority, UInt8.le_refl _, h₂.reserved⟩ h₂
  exact (h.setSlot h₃).setLastBoot nowSlot

/-- A boot takes tries from the slot it starts, and refreshes the checksum. -/
theorem lowered (h : Revises d₀ d) {t : Slot} {v : UInt8} (hv : v ≤ (d.slots t).triesRemaining) :
    Revises d₀ (d.setSlot t { d.slots t with triesRemaining := v }) :=
  h.setSlot ⟨h.priority t, UInt8.le_trans hv (h.tries t), rfl⟩

end Revises

theorem Valid.revises {d : AbData} (h : d.Valid) : Revises d d :=
  ⟨h, rfl, rfl, rfl, rfl, fun _ => rfl, rfl⟩

end AbData

/-! ## Writes that are not torn -/

/-- The write stores the record whole or not at all, and the driver that stores records
also reads them. -/
def AbMeta.MetaAnswers.Atomic (a : MetaAnswers) : Prop :=
  match a.write with
  | .stored => a.read ≠ .ignored
  | .ignored => True
  | .failed n => n = 0

/-- The write stores the record whole or not at all. -/
def Bootloader.SlotAnswers.Atomic (a : SlotAnswers) : Prop :=
  match a.write with
  | .stored => True
  | .notOpened => True
  | .failed left => ∀ misc, left misc = misc

/-- An operation whose write stores everything or nothing leaves the record, or stores the
one it has made. -/
theorem RecordChange.record_cases {write : RecordWrite} {d : Option AbData} {m m' : Machine}
    (h : RecordChange write d m m')
    (hwhole : (∀ b misc, write.land b misc = misc) ∨
      ∀ b misc, write.land b misc = misc.overwrite metaDataOffset b) :
    m'.record = m.record ∨ d = some m'.record := by
  have hrecord := h.record
  cases d with
  | none => exact .inl hrecord
  | some d =>
    rcases hwhole with hnone | hall
    · rw [handedMisc, hnone] at hrecord
      exact .inl hrecord
    · rw [handedMisc, hall, recordAt_overwrite] at hrecord
      exact .inr (congrArg some hrecord.symm)

theorem Bootloader.SlotAnswers.Atomic.record_cases {a : SlotAnswers} {d : Option AbData}
    {m m' : Machine} (hatomic : a.Atomic) (h : RecordChange a.write.onRecord d m m') :
    m'.record = m.record ∨ d = some m'.record := by
  apply h.record_cases
  rw [Atomic] at hatomic
  cases hwrite : a.write with
  | stored => exact .inr fun _ _ => rfl
  | notOpened => exact .inl fun _ _ => rfl
  | failed left =>
    rw [hwrite] at hatomic
    exact .inl fun _ => hatomic

/-- A record that was stored was made of the one that was read. -/
theorem AbMeta.MetaAnswers.Atomic.record_cases {a : MetaAnswers} {d : Option AbData}
    {m m' : Machine} (hatomic : a.Atomic) (h : RecordChange a.write.onRecord d m m') :
    m'.record = m.record ∨ a.read ≠ .ignored ∧ d = some m'.record := by
  rw [Atomic] at hatomic
  cases hwrite : a.write with
  | stored =>
    rw [hwrite] at hatomic
    refine (h.record_cases (.inr fun b misc => ?_)).imp_right fun hd => ⟨hatomic, hd⟩
    simp [hwrite, WriteAnswer.onRecord, WriteAnswer.reached]
  | ignored =>
    refine .inl ?_
    rw [h.record, hwrite]
    cases d <;> simp [handedMisc, WriteAnswer.onRecord, WriteAnswer.reached, Machine.record]
  | failed n =>
    rw [hwrite] at hatomic
    obtain rfl : n = 0 := hatomic
    refine .inl ?_
    rw [h.record, hwrite]
    cases d <;> simp [handedMisc, WriteAnswer.onRecord, WriteAnswer.reached, Machine.record]

/-! ## Steps -/

/-- The machine after the boot loader has set the tries of slot `t` to `v` and refreshed
the checksum. -/
def Machine.lower (m : Machine) (t : Slot) (v : UInt8) : Machine :=
  let d := m.record.setSlot t { m.record.slots t with triesRemaining := v }
  m.withDev miscPath ((m.devs miscPath).overwrite metaDataOffset d.refreshCrc.toBytes)

theorem Machine.record_lower (m : Machine) (t : Slot) (v : UInt8) : (m.lower t v).record =
    (m.record.setSlot t { m.record.slots t with triesRemaining := v }).refreshCrc := by
  rw [record, lower, withDev_devs_self, recordAt_overwrite]

/-- One operation on the record, one boot step, or a change of the kernel command line,
which comes with a boot. -/
inductive RecordStep (host : Endian) (m : Machine) : Machine → Prop where
  | activeCurrentSlot (g : FlashCtrl) (a : AbMeta.MetaAnswers) (h : a.Atomic) :
      RecordStep host m (AbMeta.activeCurrentSlot g host a m).2
  | activeAnotherSlot (g : FlashCtrl) (a : AbMeta.MetaAnswers) (h : a.Atomic) :
      RecordStep host m (AbMeta.activeAnotherSlot g host a m).2
  | setSlotSucceed (build : Build) (a : Bootloader.SlotAnswers) (h : a.Atomic) :
      RecordStep host m (Bootloader.setSlotSucceed host build a m).2
  | setSlotActivity (a : Bootloader.SlotAnswers) (h : a.Atomic) :
      RecordStep host m (Bootloader.setSlotActivity host a m).2
  | boot (t : Slot) (v : UInt8) (h : m.record.Selects t) (hv : v ≤ (m.record.slots t).triesRemaining) :
      RecordStep host m (m.lower t v)
  | restart (cmdline : List Char) : RecordStep host m { m with cmdline := cmdline }

/-- A boot that takes one try, and refreshes the checksum, is such a step. -/
theorem RecordStep.of_boot {host : Endian} {m : Machine} {t : Slot}
    (h : m.record.Selects t) :
    ∃ m', RecordStep host m m' ∧ m'.record = m.boot.record.refreshCrc := by
  rw [Machine.record_boot, h.booted_eq]
  rcases m.record.started_cases t with ⟨-, heq⟩ | ⟨-, htries, heq⟩
  · refine ⟨_, .boot t _ h (UInt8.le_refl _), ?_⟩
    rw [Machine.record_lower, heq]
    cases t <;> rfl
  · refine ⟨_, .boot t ((m.record.slots t).triesRemaining - 1) h ?_, ?_⟩
    · have hone : 1 ≤ (m.record.slots t).triesRemaining :=
        UInt8.le_iff_toNat_le.mpr (UInt8.lt_iff_toNat_lt.mp htries)
      rw [UInt8.le_iff_toNat_le, UInt8.toNat_sub_of_le _ _ hone]
      exact Nat.sub_le _ _
    · rw [Machine.record_lower, heq]

/-- A step leaves the record, or stores one that revises it, with a fresh checksum. -/
theorem RecordStep.record_cases {host : Endian} {m m' : Machine} {d₀ : AbData}
    (hstep : RecordStep host m m') (h : AbData.Revises d₀ m.record) :
    m'.record = m.record ∨ ∃ d, AbData.Revises d₀ d ∧ m'.record = d.refreshCrc := by
  cases hstep with
  | activeCurrentSlot g a hatomic =>
    refine (hatomic.record_cases (AbMeta.activeCurrentSlot_effect host).toRecordChange).imp_right ?_
    rintro ⟨hread, hd⟩
    simp only [AbMeta.MetaAnswers.confirmed, Option.ite_none_right_eq_some, Option.some.injEq] at hd
    obtain ⟨⟨-, hfailed, -⟩, hd⟩ := hd
    rw [AbMeta.bufferAfter_eq hread hfailed] at hd
    exact ⟨_, h.setLastBoot .a, hd.symm⟩
  | activeAnotherSlot g a hatomic =>
    refine (hatomic.record_cases (AbMeta.activeAnotherSlot_effect host).toRecordChange).imp_right ?_
    rintro ⟨hread, hd⟩
    obtain ⟨⟨-, hfailed, -⟩, current, -, hd⟩ := AbMeta.MetaAnswers.switched_eq_some_iff.mp hd
    rw [AbMeta.bufferAfter_eq hread hfailed] at hd
    exact ⟨_, (h.switchFrom current).setLastBoot .a, hd.symm⟩
  | setSlotSucceed build a hatomic =>
    refine (hatomic.record_cases Bootloader.setSlotSucceed_change).imp_right fun hd => ?_
    simp only [Bootloader.SlotAnswers.confirmed, Option.ite_none_right_eq_some,
      Option.map_eq_some_iff] at hd
    obtain ⟨-, nowSlot, -, hd⟩ := hd
    exact ⟨_, h.confirm build nowSlot, hd.symm⟩
  | setSlotActivity a hatomic =>
    refine (hatomic.record_cases (Bootloader.setSlotActivity_effect host).toRecordChange).imp_right fun hd => ?_
    simp only [Bootloader.SlotAnswers.switched, Option.ite_none_right_eq_some,
      Option.map_eq_some_iff] at hd
    obtain ⟨-, nowSlot, -, hd⟩ := hd
    exact ⟨_, h.switchFrom nowSlot, hd.symm⟩
  | boot t v _ hv => exact .inr ⟨_, h.lowered hv, m.record_lower t v⟩
  | restart cmdline => exact .inl rfl

/-- What every run keeps. -/
theorem RecordStep.keeps {host : Endian} {m m' : Machine} {d₀ : AbData}
    (hstep : RecordStep host m m') (h : m.record.WellFormed ∧ AbData.Revises d₀ m.record) :
    m'.record.WellFormed ∧ AbData.Revises d₀ m'.record := by
  rcases hstep.record_cases h.2 with heq | ⟨d, hd, heq⟩
  · rw [heq]
    exact h
  · rw [heq]
    exact ⟨hd.wellFormed_refreshCrc, hd.refreshCrc⟩

/-- From a well-formed record, every run stores well-formed records of the same identity,
on which both copies of `get_current_slot` find a slot. -/
theorem record_runs {host : Endian} {m m' : Machine} (h : m.record.WellFormed)
    (hrun : Relation.ReflTransGen (RecordStep host) m m') :
    m'.record.WellFormed ∧ AbData.KeepsIdentity m.record m'.record ∧
      ∃ s, AbMeta.getCurrentSlot m'.record = some s ∧ Bootloader.getCurrentSlot m'.record = some s := by
  have hinv : m'.record.WellFormed ∧ AbData.Revises m.record m'.record := by
    induction hrun with
    | refl => exact ⟨h, h.toValid.revises⟩
    | tail _ hstep ih => exact hstep.keeps ih
  obtain ⟨hwf, hrevises⟩ := hinv
  obtain ⟨s, hboot⟩ := hwf.lastBoot
  obtain ⟨t, hselects⟩ := AbData.exists_selects hboot
  exact ⟨hwf, hrevises.toKeepsIdentity, t, hselects, Bootloader.getCurrentSlot_eq ▸ hselects⟩

/-- A device with a well-formed record, running from slot `a`. -/
def checkedDevice : Machine := (deviceOn .a).lower .a 0

/-- The same device, updated and booted. -/
def checkedDeviceUpdated : Machine :=
  ((Bootloader.setSlotActivity .little ⟨.filled, .stored⟩ checkedDevice).2).lower .b 6

theorem record_runs_checkedDevice :
    checkedDeviceUpdated.record.WellFormed ∧
    AbData.KeepsIdentity checkedDevice.record checkedDeviceUpdated.record ∧
    ∃ s, AbMeta.getCurrentSlot checkedDeviceUpdated.record = some s ∧
      Bootloader.getCurrentSlot checkedDeviceUpdated.record = some s := by
  have hpriority : (deviceOn .a).record.InRange := by
    intro s
    cases s <;> decide +kernel
  have htries : ∀ s, ((deviceOn .a).record.slots s).triesRemaining ≤ maxTriesRemaining := by
    intro s
    cases s <;> decide +kernel
  have hboot : (deviceOn .a).record.lastBoot = Slot.a.index := by decide +kernel
  have hwf : checkedDevice.record.WellFormed := by
    have hvalid : (deviceOn .a).record.Valid := ⟨hpriority, htries, .a, hboot⟩
    rw [checkedDevice, Machine.record_lower]
    exact (hvalid.revises.lowered UInt8.zero_le).wellFormed_refreshCrc
  have hselects :
      (Bootloader.setSlotActivity .little ⟨.filled, .stored⟩ checkedDevice).2.record.Selects .b := by
    decide +kernel
  have htries' : 6 ≤ ((Bootloader.setSlotActivity .little ⟨.filled, .stored⟩
      checkedDevice).2.record.slots .b).triesRemaining := by
    decide +kernel
  have hswitch : RecordStep .little checkedDevice
      (Bootloader.setSlotActivity .little ⟨.filled, .stored⟩ checkedDevice).2 :=
    .setSlotActivity ⟨.filled, .stored⟩ trivial
  exact record_runs hwf (.tail (.single hswitch) (.boot .b 6 hselects htries'))

end LinuxOta
