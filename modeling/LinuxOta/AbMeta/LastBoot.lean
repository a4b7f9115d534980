-- SUMMARY: When `rk_ab_meta_active_current_slot` confirms the slot it is called for.
import LinuxOta.AbMeta.Meta

namespace LinuxOta

/-! # Confirming the current slot

`rk_ab_meta_active_current_slot` stores the return code of its read as
`last_boot`. Drivers return 0, so this is slot `a`, whatever slot the record
selects. -/

namespace AbMeta

/-- The record in `m'` confirms slot `s`, and has the slots of the one in `m`. -/
structure Confirmed (s : Slot) (m m' : Machine) : Prop where
  lastBoot : m'.record.lastBoot = s.index
  slots : m'.record.slots = m.record.slots
  selects : m'.record.Selects s

/-- The answers with which the call fails, or confirms slot `s`. -/
def MetaAnswers.ConfirmsSlot (a : MetaAnswers) (g : FlashCtrl) (s : Slot) (m : Machine) : Prop :=
  g.Opens a.openRead → a.read ≠ .failed → g.Opens a.openWrite →
    match a.write with
    | .stored => s = .a ∧ (bufferAfter a.read m).slots = m.record.slots
    | .ignored => m.record.lastBoot = s.index
    | .failed _ => True

variable {g : FlashCtrl} {a : MetaAnswers} {m : Machine} {s : Slot}

/-- A record with slots that select `s`, and with `last_boot` naming `s`, selects `s`. -/
theorem selects_of_lastBoot {d d' : AbData} (h : d.Selects s) (hslots : d'.slots = d.slots)
    (hboot : d'.lastBoot = s.index) : d'.Selects s := by
  rw [AbData.selects_iff] at h ⊢
  simp only [AbData.Bootable, AbData.Outranks, hslots]
  rcases h with hbootable | ⟨hself, hother, -⟩
  · exact .inl hbootable
  · exact .inr ⟨hself, hother, hboot⟩

theorem confirmed_iff (h : m.record.Selects s) {m' : Machine} :
    Confirmed s m m' ↔ m'.record.lastBoot = s.index ∧ m'.record.slots = m.record.slots :=
  ⟨fun hc => ⟨hc.lastBoot, hc.slots⟩, fun hc => ⟨hc.1, hc.2, selects_of_lastBoot h hc.2 hc.1⟩⟩

theorem index_eq_zero_iff : (0 : UInt8) = s.index ↔ s = .a := by
  cases s <;> decide

/-- A call that reports success has confirmed the slot the record selects exactly when its
answers do. -/
theorem activeCurrentSlot_confirms_iff (host : Endian) (h : m.record.Selects s) :
    (0 ≤ (activeCurrentSlot g host a m).1 → Confirmed s m (activeCurrentSlot g host a m).2) ↔
      a.ConfirmsSlot g s m := by
  have heffect := activeCurrentSlot_effect host (g := g) (m := m) (a := a)
  have hrecord := heffect.record
  rw [confirmed_iff h, heffect.ret, hrecord]
  by_cases hopens : g.Opens a.openRead ∧ a.read ≠ .failed ∧ g.Opens a.openWrite
  swap
  · have hnone : a.confirmed g m = none := if_neg hopens
    have hfails : ¬ 0 ≤ handedRet a.write.onRecord none := (by decide : ¬ (0 : Int) ≤ -1)
    rw [hnone]
    exact iff_of_true (fun hret => absurd hret hfails) fun ho hr hw => absurd ⟨ho, hr, hw⟩ hopens
  obtain ⟨hread, hfailed, hwrite⟩ := hopens
  have hsome : a.confirmed g m = some (confirmedRecord (bufferAfter a.read m)) :=
    if_pos ⟨hread, hfailed, hwrite⟩
  simp only [hsome, MetaAnswers.ConfirmsSlot, hread, hfailed, hwrite, ne_eq, not_false_eq_true,
    forall_const, handedRet]
  cases a.write with
  | stored =>
    rw [recordAt_handedMisc_stored]
    simp [WriteAnswer.onRecord, WriteAnswer.ret, confirmedRecord, index_eq_zero_iff]
  | ignored =>
    simp [WriteAnswer.onRecord, WriteAnswer.ret, handedMisc, WriteAnswer.reached, Machine.record]
  | failed n => simp [WriteAnswer.onRecord, WriteAnswer.ret]

/-- The answers of calls that all go through. -/
def MetaAnswers.healthy : MetaAnswers where
  openRead := 3
  read := .filled
  cmdline := ⟨true, 511⟩
  openWrite := 3
  write := .stored

theorem activeCurrentSlot_confirms_deviceOn :
    (deviceOn .a).record.Selects .a ∧
    (0 ≤ (activeCurrentSlot ⟨true, 512⟩ .little .healthy (deviceOn .a)).1 →
      Confirmed .a (deviceOn .a) (activeCurrentSlot ⟨true, 512⟩ .little .healthy (deviceOn .a)).2) := by
  have hselects : (deviceOn .a).record.Selects .a := by decide +kernel
  refine ⟨hselects, (activeCurrentSlot_confirms_iff .little hselects).mpr fun _ _ _ => ⟨rfl, rfl⟩⟩

/-- On a device that runs from slot `b`, a call with healthy answers reports success and
stores a record whose `last_boot` is slot `a`. -/
theorem activeCurrentSlot_confirms_wrong_slot :
    (deviceOn .b).record.Selects .b ∧
    (activeCurrentSlot ⟨true, 512⟩ .little .healthy (deviceOn .b)).1 = 0 ∧
    (activeCurrentSlot ⟨true, 512⟩ .little .healthy (deviceOn .b)).2.record.lastBoot = Slot.a.index ∧
    ¬ ∀ (g : FlashCtrl) (host : Endian) (a : MetaAnswers) (m : Machine) (s : Slot), m.record.Selects s →
      0 ≤ (activeCurrentSlot g host a m).1 → Confirmed s m (activeCurrentSlot g host a m).2 := by
  have hselects : (deviceOn .b).record.Selects .b := by decide +kernel
  have hret : (activeCurrentSlot ⟨true, 512⟩ .little .healthy (deviceOn .b)).1 = 0 := by
    decide +kernel
  have hboot : (activeCurrentSlot ⟨true, 512⟩ .little .healthy (deviceOn .b)).2.record.lastBoot =
      Slot.a.index := by decide +kernel
  refine ⟨hselects, hret, hboot, fun hall => ?_⟩
  have hconfirmed := (hall ⟨true, 512⟩ .little .healthy _ .b hselects (by rw [hret])).lastBoot
  exact absurd (hboot.symm.trans hconfirmed) (by decide)

end AbMeta
end LinuxOta
