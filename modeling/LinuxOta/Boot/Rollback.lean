-- SUMMARY: A switched device tries the new slot a bounded number of times and then stays on the old one.
import LinuxOta.AbMeta.Durability
import LinuxOta.Base.Trial
import LinuxOta.Boot.BootLoader
import LinuxOta.Ota.Bootloader

namespace LinuxOta

/-! # Bounded rollback -/

namespace AbData

/-- The record conducts the trial `t`: the candidate comes first and has yet to be
confirmed, and the fallback is the other slot, which has been. -/
structure OnTrial (d : AbData) (t : Trial Slot) : Prop where
  fallback : t.fallback = t.candidate.other
  priority : (d.slots t.candidate).priority = maxPriority
  unconfirmed : (d.slots t.candidate).successfulBoot = 0
  tries : (d.slots t.candidate).triesRemaining.toNat = t.left
  fallbackPriority : (d.slots t.fallback).priority = maxPriority - 1
  confirmed : 0 < (d.slots t.fallback).successfulBoot

namespace OnTrial

variable {d : AbData} {t : Trial Slot}

theorem congr {d' : AbData} (hslots : d'.slots = d.slots) (h : d.OnTrial t) : d'.OnTrial t := by
  obtain ⟨hfallback, hprio, hsucc, htries, hother, hconfirmed⟩ := h
  exact ⟨hfallback, hslots ▸ hprio, hslots ▸ hsucc, hslots ▸ htries, hslots ▸ hother,
    hslots ▸ hconfirmed⟩

theorem fallback_bootable (h : d.OnTrial t) : d.Bootable t.fallback := by
  refine ⟨?_, .inl h.confirmed⟩
  rw [h.fallbackPriority]
  decide

/-- The record selects what the trial starts. -/
theorem selects (h : d.OnTrial t) : d.Selects t.starts := by
  by_cases hleft : 0 < t.left
  · have htries : 0 < (d.slots t.candidate).triesRemaining := by
      rw [UInt8.lt_iff_toNat_lt, h.tries]
      exact hleft
    have hlower : (d.slots t.candidate.other).priority < maxPriority := by
      rw [← h.fallback, h.fallbackPriority]
      decide
    rw [Trial.starts, if_pos hleft]
    exact selects_of_lower h.priority hlower htries
  · have htries : (d.slots t.candidate).triesRemaining = 0 := by
      rw [← UInt8.toNat_inj, h.tries]
      exact Nat.eq_zero_of_not_pos hleft
    have hcandidate : ¬ d.Bootable t.fallback.other := by
      rw [h.fallback, Slot.other_other]
      simp [Bootable, h.unconfirmed, htries]
    rw [Trial.starts, if_neg hleft, selects_iff]
    exact .inl ⟨h.fallback_bootable, fun hc => absurd hc hcandidate⟩

/-- A boot is one step of the trial. -/
theorem booted (h : d.OnTrial t) : d.booted.OnTrial t.next := by
  have hstarted : d.booted = d.started t.starts := h.selects.booted_eq
  rw [hstarted]
  by_cases hleft : 0 < t.left
  · rw [Trial.starts, if_pos hleft]
    have hother := d.slots_started_other t.candidate
    rw [← h.fallback] at hother
    refine ⟨h.fallback, ?_, ?_, ?_, ?_, ?_⟩
    · exact (d.priority_started t.candidate).trans h.priority
    · exact (d.successfulBoot_started t.candidate).trans h.unconfirmed
    · rw [Trial.next, triesRemaining_started h.unconfirmed, h.tries]
    · exact (congrArg SlotData.priority hother).trans h.fallbackPriority
    · exact hother.symm ▸ h.confirmed
  · -- the fallback is confirmed, so its start changes nothing
    have hkeeps : d.started t.fallback = d :=
      if_neg fun hc => UInt8.pos_iff_ne_zero.mp h.confirmed hc.1
    rw [Trial.starts, if_neg hleft, hkeeps, Trial.next_of_spent hleft]
    exact h

end OnTrial

/-- Boots conduct the trial. -/
theorem booted_conducts : Trial.Conducts AbData.booted AbMeta.getCurrentSlot OnTrial where
  starts _ _ h := h.selects
  next _ _ h := h.booted

/-- The switch away from a confirmed slot begins a trial of the other one. -/
theorem switchFrom_onTrial {d : AbData} {s : Slot} (hconfirmed : 0 < (d.slots s).successfulBoot) :
    (d.switchFrom s).OnTrial ⟨s.other, s, maxTriesRemaining.toNat⟩ := by
  obtain ⟨hcurrent, hother⟩ := d.switchFrom_slots s
  refine ⟨s.other_other.symm, ?_, ?_, ?_, ?_, ?_⟩
  · exact congrArg SlotData.priority hother
  · exact congrArg SlotData.successfulBoot hother
  · exact congrArg (·.triesRemaining.toNat) hother
  · exact congrArg SlotData.priority hcurrent
  · exact (congrArg SlotData.successfulBoot hcurrent).symm ▸ hconfirmed

end AbData

/-- Boots start the other slot as often as it has tries, and from then on slot `s`. -/
def Machine.RollsBack (m : Machine) (s : Slot) : Prop :=
  ∀ n, (boot^[n] m).record.Selects (if n < maxTriesRemaining.toNat then s.other else s)

/-- After a switch away from a confirmed slot the device rolls back to it. -/
theorem Machine.rollsBack_of_switchFrom {m : Machine} {d : AbData} {s : Slot}
    (hconfirmed : 0 < (d.slots s).successfulBoot) (hslots : m.record.slots = (d.switchFrom s).slots) :
    m.RollsBack s := by
  have htrial : m.record.OnTrial ⟨s.other, s, maxTriesRemaining.toNat⟩ :=
    (AbData.switchFrom_onTrial hconfirmed).congr hslots
  intro n
  rw [record_iterate_boot]
  exact AbData.booted_conducts.start_iterate htrial n

namespace AbMeta

/-- The driver moves bytes, as the one for eMMC does. Those for NAND and NOR report success
and leave the device and the buffer alone. -/
def MetaAnswers.Transfers (a : MetaAnswers) : Prop :=
  a.read ≠ .ignored ∧ a.write ≠ .ignored

/-- A successful `rk_ab_meta_active_another_slot` has switched from the running slot. -/
theorem activeAnotherSlot_success {g : FlashCtrl} {host : Endian} {a : MetaAnswers} {m : Machine}
    {s : Slot} (htransfers : a.Transfers) (hrunning : getRunningSlot a.cmdline m = some s)
    (hret : 0 ≤ (activeAnotherSlot g host a m).1) :
    (activeAnotherSlot g host a m).2.record = switchedRecord m.record s := by
  have heffect := activeAnotherSlot_effect host (g := g) (m := m) (a := a)
  have hnonneg : 0 ≤ handedRet a.write.onRecord (a.switched g m) := heffect.ret ▸ hret
  have hrecord := heffect.record
  have hfailed : ¬ (0 : Int) ≤ -1 := by decide
  cases hswitched : a.switched g m with
  | none =>
    rw [hswitched] at hnonneg
    exact absurd hnonneg hfailed
  | some d =>
    obtain ⟨⟨-, hread, -⟩, current, hcurrent, rfl⟩ := MetaAnswers.switched_eq_some_iff.mp hswitched
    obtain rfl : s = current := Option.some.inj (hrunning.symm.trans hcurrent)
    rw [hswitched, bufferAfter_eq htransfers.1 hread] at hnonneg hrecord
    cases hwrite : a.write with
    | stored =>
      rw [hrecord, hwrite, recordAt_handedMisc_stored]
    | ignored => exact absurd hwrite htransfers.2
    | failed n =>
      rw [hwrite] at hnonneg
      exact absurd hnonneg hfailed

/-- With a driver that moves bytes, the device rolls back after a switch away from a slot
that was marked successful. -/
theorem rollsBack_of_transfers {g : FlashCtrl} {host : Endian} {a : MetaAnswers} {m : Machine} {s : Slot}
    (htransfers : a.Transfers) (hrunning : getRunningSlot a.cmdline m = some s)
    (hconfirmed : 0 < (m.record.slots s).successfulBoot) (hret : 0 ≤ (activeAnotherSlot g host a m).1) :
    (activeAnotherSlot g host a m).2.RollsBack s := by
  refine Machine.rollsBack_of_switchFrom hconfirmed ?_
  rw [activeAnotherSlot_success htransfers hrunning hret]
  simp [switchedRecord]

/-- The installed driver, if there is one, is none of the stubs for NAND and NOR. -/
def DriverMoves (st : FlashState) : Prop :=
  st.ctrl.isInit = true → st.ops ≠ some .nand ∧ st.ops ≠ some .nor

instance (st : FlashState) : Decidable (DriverMoves st) := inferInstanceAs (Decidable (_ → _))

/-- Whatever misc holds on a device that runs from slot `s`: after a switch away from it that
reports success, if it was marked successful, the device rolls back to it. -/
def SwitchRollsBack (st : FlashState) (host : Endian) (os : OsAnswers) (m : Machine) (s : Slot) : Prop :=
  ∀ misc : Content, 0 < ((m.withDev miscPath misc).record.slots s).successfulBoot →
    0 ≤ (switchOn st os (m.withDev miscPath misc) host).1 →
    (switchOn st os (m.withDev miscPath misc) host).2.RollsBack s

variable {st : FlashState} {host : Endian} {os : OsAnswers} {m : Machine} {s : Slot}

/-- A switch without a driver fails. -/
theorem switchOn_fails (h : st.ctrl.isInit = false ∨ st.ops = none) : ¬ 0 ≤ (switchOn st os m host).1 := by
  have hopens : ¬ st.ctrl.Opens (st.answers os).openRead := by
    rintro ⟨hinit, hopened⟩
    rcases h with h | h
    · rw [h] at hinit
      exact absurd hinit (by decide)
    · simp [FlashState.answers, h] at hopened
  have hnone : (st.answers os).switched st.ctrl m = none := if_neg fun hc => hopens hc.1
  have hfailed : ¬ 0 ≤ handedRet (st.answers os).write.onRecord none := (by decide : ¬ (0 : Int) ≤ -1)
  rwa [switchOn, (activeAnotherSlot_effect host).ret, hnone]

theorem transfers_of_block (h : st.ops = some .block) : (st.answers os).Transfers := by
  constructor
  · cases hread : os.read <;> simp [FlashState.answers, h, FlashOps.read, hread]
  · cases hwrite : os.write <;> simp [FlashState.answers, h, FlashOps.write, hwrite]

variable (host) in
/-- Through a stub the switch reports success and leaves the record alone. -/
theorem switchOn_stub (hinit : st.ctrl.isInit = true)
    (hstub : st.answers os = ⟨0, .ignored, os.cmdline, 0, .ignored⟩)
    (hrunning : getRunningSlot os.cmdline m = some s) :
    0 ≤ (switchOn st os m host).1 ∧ (switchOn st os m host).2.record = m.record := by
  have hopens : st.ctrl.Opens 0 := ⟨hinit, by decide⟩
  have hswitched : (st.answers os).switched st.ctrl m = some (switchedRecord zeroRecord s) := by
    rw [hstub]
    exact MetaAnswers.switched_eq_some_iff.mpr ⟨⟨hopens, by simp, hopens⟩, s, hrunning, rfl⟩
  have heffect := activeAnotherSlot_effect host (g := st.ctrl) (m := m) (a := st.answers os)
  rw [switchOn, heffect.ret, heffect.record, hswitched, hstub]
  exact ⟨Int.le_refl 0, by simp [handedMisc, WriteAnswer.onRecord, WriteAnswer.reached, Machine.record]⟩

/-- A device that stays on its record does not try the other slot. -/
theorem not_switchRollsBack_of_stub (hinit : st.ctrl.isInit = true)
    (hstub : st.answers os = ⟨0, .ignored, os.cmdline, 0, .ignored⟩)
    (hrunning : getRunningSlot os.cmdline m = some s) : ¬ SwitchRollsBack st host os m s := by
  intro hrolls
  have hrecord : (m.withDev miscPath ((deviceOn s).devs miscPath)).record = (deviceOn s).record := by
    rw [Machine.record, Machine.withDev_devs_self, Machine.record]
  have hselects : (deviceOn s).record.Selects s ∧ 0 < ((deviceOn s).record.slots s).successfulBoot := by
    cases s <;> decide +kernel
  have hrunning' : getRunningSlot os.cmdline (m.withDev miscPath ((deviceOn s).devs miscPath)) = some s :=
    hrunning
  obtain ⟨hret, hsame⟩ := switchOn_stub host hinit hstub hrunning'
  have hfirst := hrolls ((deviceOn s).devs miscPath) (by rw [hrecord]; exact hselects.2) hret 0
  rw [Function.iterate_zero_apply, hsame, hrecord, if_pos (by decide)] at hfirst
  exact Slot.other_ne s (AbData.Selects.unique hselects.1 hfirst)

end AbMeta

end LinuxOta
