-- SUMMARY: One boot: the boot loader starts the selected slot and counts down its tries.
import LinuxOta.AbMeta.Meta

namespace LinuxOta

/-! # The boot loader

It is not in the repository. The headers say what it does with the record: it starts the
slot that `get_current_slot` returns, and takes a try from a slot that has not been marked
successful. -/

namespace AbData

/-- The record after slot `t` was started from it. -/
def started (d : AbData) (t : Slot) : AbData :=
  if (d.slots t).successfulBoot = 0 ∧ 0 < (d.slots t).triesRemaining then
    d.setSlot t { d.slots t with triesRemaining := (d.slots t).triesRemaining - 1 }
  else d

/-- The record after one boot. -/
def booted (d : AbData) : AbData :=
  match AbMeta.getCurrentSlot d with
  | some t => d.started t
  | none => d

variable {d : AbData} {t : Slot}

theorem Selects.booted_eq (h : d.Selects t) : d.booted = d.started t := by
  simp only [booted, show AbMeta.getCurrentSlot d = some t from h]

/-- A start leaves the record alone, or takes one try from the slot. -/
theorem started_cases (d : AbData) (t : Slot) :
    (((d.slots t).successfulBoot ≠ 0 ∨ (d.slots t).triesRemaining = 0) ∧ d.started t = d) ∨
    ((d.slots t).successfulBoot = 0 ∧ 0 < (d.slots t).triesRemaining ∧
      d.started t = d.setSlot t { d.slots t with triesRemaining := (d.slots t).triesRemaining - 1 }) := by
  by_cases h : (d.slots t).successfulBoot = 0 ∧ 0 < (d.slots t).triesRemaining
  · exact .inr ⟨h.1, h.2, if_pos h⟩
  · refine .inl ⟨?_, if_neg h⟩
    by_contra hc
    push Not at hc
    exact h ⟨hc.1, UInt8.pos_iff_ne_zero.mpr hc.2⟩

@[simp] theorem slots_started_other (d : AbData) (t : Slot) :
    (d.started t).slots t.other = d.slots t.other := by
  rcases d.started_cases t with ⟨-, h⟩ | ⟨-, -, h⟩ <;> simp [h]

@[simp] theorem priority_started (d : AbData) (t : Slot) :
    ((d.started t).slots t).priority = (d.slots t).priority := by
  rcases d.started_cases t with ⟨-, h⟩ | ⟨-, -, h⟩ <;> simp [h]

@[simp] theorem successfulBoot_started (d : AbData) (t : Slot) :
    ((d.started t).slots t).successfulBoot = (d.slots t).successfulBoot := by
  rcases d.started_cases t with ⟨-, h⟩ | ⟨-, -, h⟩ <;> simp [h]

@[simp] theorem lastBoot_started (d : AbData) (t : Slot) : (d.started t).lastBoot = d.lastBoot := by
  rcases d.started_cases t with ⟨-, h⟩ | ⟨-, -, h⟩ <;> simp [h]

@[simp] theorem magic_started (d : AbData) (t : Slot) : (d.started t).magic = d.magic := by
  rcases d.started_cases t with ⟨-, h⟩ | ⟨-, -, h⟩ <;> simp [h]

/-- The tries of an unconfirmed slot, counted. -/
theorem triesRemaining_started (hsucc : (d.slots t).successfulBoot = 0) :
    ((d.started t).slots t).triesRemaining.toNat = (d.slots t).triesRemaining.toNat - 1 := by
  rcases d.started_cases t with ⟨hkeeps, h⟩ | ⟨-, htries, h⟩
  · have hzero : (d.slots t).triesRemaining = 0 := hkeeps.resolve_left (not_not_intro hsucc)
    rw [h, hzero]
    rfl
  · rw [h, slots_setSlot_self]
    exact UInt8.toNat_sub_of_le _ _ (UInt8.le_iff_toNat_le.mpr (UInt8.lt_iff_toNat_lt.mp htries))

/-- Starting one slot does not touch the other one. -/
theorem bootable_started_other : (d.started t).Bootable t.other ↔ d.Bootable t.other := by
  simp only [Bootable, slots_started_other]

/-- No priority is higher than the highest one. -/
def InRange (d : AbData) : Prop := ∀ s, (d.slots s).priority ≤ maxPriority

theorem InRange.booted (h : d.InRange) : d.booted.InRange := by
  cases hslot : AbMeta.getCurrentSlot d with
  | none => simpa only [AbData.booted, hslot] using h
  | some t =>
    rw [Selects.booted_eq hslot]
    intro s
    rcases Slot.eq_or_eq_other t s with rfl | rfl
    · rw [priority_started]
      exact h _
    · rw [slots_started_other]
      exact h _

theorem magic_booted (d : AbData) : d.booted.magic = d.magic := by
  cases hslot : AbMeta.getCurrentSlot d with
  | none => simp only [AbData.booted, hslot]
  | some t => rw [Selects.booted_eq hslot, magic_started]

end AbData

/-! ## On the machine -/

/-- The machine after the boot loader has run. -/
def Machine.boot (m : Machine) : Machine :=
  m.withDev miscPath ((m.devs miscPath).overwrite metaDataOffset m.record.booted.toBytes)

@[simp] theorem Machine.record_boot (m : Machine) : m.boot.record = m.record.booted := by
  rw [record, boot, withDev_devs_self, recordAt_overwrite]

theorem Machine.record_iterate_boot (m : Machine) (n : Nat) :
    (boot^[n] m).record = AbData.booted^[n] m.record :=
  Function.Semiconj.iterate_right (f := Machine.record) record_boot n m

end LinuxOta
