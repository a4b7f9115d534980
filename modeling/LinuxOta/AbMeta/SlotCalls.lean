-- SUMMARY: `get_current_slot` with its static variable: the result of a call after any other calls, in both modules.
import LinuxOta.AbMeta.Selection

namespace LinuxOta

/-! # Calls of get_current_slot

Both copies keep the slot they announced last in a static variable, and print a line
when another one is selected. -/

/-- The slot as the `int` that counts it. -/
def Slot.number : Slot → Int
  | .a => 0
  | .b => 1

/-- `slots[i]`. -/
def AbData.slotAt (d : AbData) (i : Int) : SlotData :=
  if i = 0 then d.slotA else d.slotB

/-- The line a call prints. -/
structure SlotNotice where
  slot : Char
  successful : UInt8
  triesRemain : UInt8
  deriving DecidableEq, Repr

/-- How a call ends. -/
structure SlotCall where
  ret : Int
  /-- `last_slot_index` afterwards. -/
  lastSlotIndex : Int
  notice : Option SlotNotice
  deriving DecidableEq, Repr

namespace AbMeta

/-- `rk_ab_meta_get_suffix_by_slot`. -/
def getSuffixBySlot (slot : Int) : Char :=
  if slot = 0 then 'a' else 'b'

/-- The end of `get_current_slot` once `reboot_slot` is set. -/
def announceSlot (d : AbData) (lastSlotIndex rebootSlot : Int) : SlotCall :=
  let ret := if rebootSlot = 0 then 0 else 1
  if lastSlotIndex ≠ rebootSlot then
    ⟨ret, rebootSlot, some ⟨getSuffixBySlot ret, (d.slotAt rebootSlot).successfulBoot,
      (d.slotAt rebootSlot).triesRemaining⟩⟩
  else ⟨ret, lastSlotIndex, none⟩

/-- `get_current_slot`, with its static variable. -/
def callGetCurrentSlot (lastSlotIndex : Int) (d : AbData) : SlotCall :=
  if slotIsBootable (d.slotAt 0) && slotIsBootable (d.slotAt 1) then
    announceSlot d lastSlotIndex (if (d.slotAt 1).priority > (d.slotAt 0).priority then 1 else 0)
  else if slotIsBootable (d.slotAt 0) then announceSlot d lastSlotIndex 0
  else if slotIsBootable (d.slotAt 1) then announceSlot d lastSlotIndex 1
  else if d.lastBoot = 0 then ⟨0, lastSlotIndex, none⟩
  else if d.lastBoot = 1 then ⟨1, lastSlotIndex, none⟩
  else ⟨-1, lastSlotIndex, none⟩

/-- `last_slot_index` after the calls on the given records. -/
def lastSlotIndexAfter (calls : List AbData) : Int :=
  calls.foldl (fun last d => (callGetCurrentSlot last d).lastSlotIndex) (-1)

end AbMeta

namespace Bootloader

/-- The end of `get_current_slot` once `slot_index_to_boot` is set. -/
def announceSlot (d : AbData) (lastSlotIndex slotIndexToBoot : Int) : SlotCall :=
  let ret := if slotIndexToBoot = 0 then 0 else if slotIndexToBoot = 1 then 1 else 0
  if lastSlotIndex ≠ slotIndexToBoot then
    ⟨ret, slotIndexToBoot, some ⟨if ret = 0 then 'A' else 'B',
      (d.slotAt slotIndexToBoot).successfulBoot, (d.slotAt slotIndexToBoot).triesRemaining⟩⟩
  else ⟨ret, lastSlotIndex, none⟩

/-- `get_current_slot`, with its static variable. -/
def callGetCurrentSlot (lastSlotIndex : Int) (d : AbData) : SlotCall :=
  if slotIsBootable (d.slotAt 0) && slotIsBootable (d.slotAt 1) then
    announceSlot d lastSlotIndex (if (d.slotAt 1).priority > (d.slotAt 0).priority then 1 else 0)
  else if slotIsBootable (d.slotAt 0) then announceSlot d lastSlotIndex 0
  else if slotIsBootable (d.slotAt 1) then announceSlot d lastSlotIndex 1
  else if d.lastBoot = 0 then ⟨0, lastSlotIndex, none⟩
  else if d.lastBoot = 1 then ⟨1, lastSlotIndex, none⟩
  else ⟨-1, lastSlotIndex, none⟩

/-- `last_slot_index` after the calls on the given records. -/
def lastSlotIndexAfter (calls : List AbData) : Int :=
  calls.foldl (fun last d => (callGetCurrentSlot last d).lastSlotIndex) (-1)

end Bootloader

/-! ## The rule -/

/-- The result a selection is to have: the bootable slot of highest priority, slot 0 on a
tie; without a bootable slot, `last_boot` if that is a slot, and -1 otherwise. -/
structure SelectionRule (d : AbData) (ret : Int) : Prop where
  best : ∀ s, d.Bootable s →
    ∃ t, ret = t.number ∧ d.Bootable t ∧ ∀ u, d.Bootable u → u ≠ t → d.Outranks t u
  lastBoot : (∀ s, ¬ d.Bootable s) → d.lastBoot = 0 ∨ d.lastBoot = 1 → ret = d.lastBoot.toNat
  none : (∀ s, ¬ d.Bootable s) → ¬ (d.lastBoot = 0 ∨ d.lastBoot = 1) → ret = -1

theorem Slot.number_injective : Function.Injective Slot.number := by
  intro s t h
  cases s <;> cases t <;> first | rfl | exact absurd h (by decide)

theorem AbData.Outranks.not_symm {d : AbData} {s t : Slot} (hne : s ≠ t) (h : d.Outranks s t) :
    ¬ d.Outranks t s := by
  unfold Outranks at h ⊢
  rintro (hlt | ⟨heq, rfl⟩)
  · rcases h with h | ⟨h, -⟩
    · exact absurd (UInt8.lt_trans hlt h) (UInt8.lt_irrefl _)
    · exact absurd (h ▸ hlt) (UInt8.lt_irrefl _)
  · rcases h with h | ⟨-, rfl⟩
    · exact absurd (heq ▸ h) (UInt8.lt_irrefl _)
    · exact hne rfl

/-- The rule leaves one result. -/
theorem SelectionRule.unique {d : AbData} {ret ret' : Int} (h : SelectionRule d ret)
    (h' : SelectionRule d ret') : ret = ret' := by
  by_cases hboot : ∃ s, d.Bootable s
  · obtain ⟨s, hs⟩ := hboot
    obtain ⟨t, rfl, ht, hbest⟩ := h.best s hs
    obtain ⟨t', rfl, ht', hbest'⟩ := h'.best s hs
    by_cases heq : t = t'
    · rw [heq]
    · exact absurd (hbest' t ht heq) ((hbest t' ht' (Ne.symm heq)).not_symm heq)
  · have hnone : ∀ s, ¬ d.Bootable s := fun s hs => hboot ⟨s, hs⟩
    by_cases hlast : d.lastBoot = 0 ∨ d.lastBoot = 1
    · rw [h.lastBoot hnone hlast, h'.lastBoot hnone hlast]
    · rw [h.none hnone hlast, h'.none hnone hlast]

/-- A result that follows the rule is no slot that is passed over for an unbootable one. -/
theorem SelectionRule.bootable {d : AbData} {s : Slot} (h : SelectionRule d s.number)
    (hother : d.Bootable s.other) : d.Bootable s := by
  obtain ⟨t, ht, hboot, -⟩ := h.best _ hother
  rwa [Slot.number_injective ht]

/-! ## The calls -/

/-- The slot number of a selection; -1 is `none`. -/
def slotNumber : Option Slot → Int
  | some s => s.number
  | none => -1

namespace AbMeta

/-- The static variable has no influence on the result. -/
theorem callGetCurrentSlot_ret (lastSlotIndex : Int) (d : AbData) :
    (callGetCurrentSlot lastSlotIndex d).ret = slotNumber (getCurrentSlot d) := by
  have hret : ∀ i, (announceSlot d lastSlotIndex i).ret = if i = 0 then 0 else 1 := by
    intro i
    simp only [announceSlot]
    split <;> rfl
  have ha : d.slotAt 0 = d.slotA := rfl
  have hb : d.slotAt 1 = d.slotB := rfl
  unfold callGetCurrentSlot getCurrentSlot
  rw [ha, hb, AbData.slots, AbData.slots]
  cases hbootA : slotIsBootable d.slotA with
  | true =>
    cases hbootB : slotIsBootable d.slotB with
    | true => by_cases hprio : d.slotB.priority > d.slotA.priority <;> simp [hprio, hret] <;> rfl
    | false => simp [hret, slotNumber, Slot.number]
  | false =>
    cases hbootB : slotIsBootable d.slotB with
    | true => simp [hret, slotNumber, Slot.number]
    | false => by_cases h₀ : d.lastBoot = 0 <;> by_cases h₁ : d.lastBoot = 1 <;> simp [h₀, h₁] <;> rfl

end AbMeta

namespace Bootloader

/-- The static variable has no influence on the result. -/
theorem callGetCurrentSlot_ret (lastSlotIndex : Int) (d : AbData) :
    (callGetCurrentSlot lastSlotIndex d).ret = slotNumber (getCurrentSlot d) := by
  have hret : ∀ i, (announceSlot d lastSlotIndex i).ret = if i = 0 then 0 else if i = 1 then 1 else 0 := by
    intro i
    simp only [announceSlot]
    split <;> rfl
  have ha : d.slotAt 0 = d.slotA := rfl
  have hb : d.slotAt 1 = d.slotB := rfl
  unfold callGetCurrentSlot getCurrentSlot
  rw [ha, hb, AbData.slots, AbData.slots]
  cases hbootA : slotIsBootable d.slotA with
  | true =>
    cases hbootB : slotIsBootable d.slotB with
    | true => by_cases hprio : d.slotB.priority > d.slotA.priority <;> simp [hprio, hret] <;> rfl
    | false => simp [hret, slotNumber, Slot.number]
  | false =>
    cases hbootB : slotIsBootable d.slotB with
    | true => simp [hret, slotNumber, Slot.number]
    | false => by_cases h₀ : d.lastBoot = 0 <;> by_cases h₁ : d.lastBoot = 1 <;> simp [h₀, h₁] <;> rfl

end Bootloader

/-- The selection follows the rule. -/
theorem selectionRule_getCurrentSlot (d : AbData) :
    SelectionRule d (slotNumber (AbMeta.getCurrentSlot d)) := by
  cases hslot : AbMeta.getCurrentSlot d with
  | some s =>
    rcases (d.selects_iff s).mp hslot with ⟨hboot, hbest⟩ | ⟨hboot, hother, hlast⟩
    · refine ⟨fun _ _ => ⟨s, rfl, hboot, ?_⟩, fun h => absurd hboot (h s), fun h => absurd hboot (h s)⟩
      intro u hu hne
      obtain rfl | rfl := Slot.eq_or_eq_other s u
      · exact absurd rfl hne
      · exact hbest hu
    · have hnone : ∀ t, ¬ d.Bootable t := by
        intro t
        obtain rfl | rfl := Slot.eq_or_eq_other s t
        · exact hboot
        · exact hother
      refine ⟨fun t ht => absurd ht (hnone t), fun _ _ => ?_, fun _ hout => ?_⟩
      · rw [hlast]
        cases s <;> rfl
      · rw [hlast] at hout
        cases s <;> exact absurd hout (by decide)
  | none =>
    have hnot : ∀ s, ¬ d.Selects s := by simp [AbData.Selects, hslot]
    have hnone : ∀ t, ¬ d.Bootable t := by
      intro t ht
      by_cases hother : d.Bootable t.other
      · by_cases hrank : d.Outranks t t.other
        · exact hnot t ((d.selects_iff t).mpr (.inl ⟨ht, fun _ => hrank⟩))
        · apply hnot t.other
          refine (d.selects_iff t.other).mpr (.inl ⟨hother, fun _ => ?_⟩)
          rw [Slot.other_other]
          simp only [AbData.Outranks, UInt8.lt_iff_toNat_lt, ← UInt8.toNat_inj] at hrank ⊢
          cases t with
          | a =>
            simp only [Slot.other, and_true] at hrank ⊢
            omega
          | b =>
            simp only [Slot.other, and_true] at hrank ⊢
            omega
      · exact hnot t ((d.selects_iff t).mpr (.inl ⟨ht, fun h => absurd h hother⟩))
    have hlast : ¬ (d.lastBoot = 0 ∨ d.lastBoot = 1) := by
      rintro (h | h)
      · exact hnot .a ((d.selects_iff .a).mpr (.inr ⟨hnone _, hnone _, h⟩))
      · exact hnot .b ((d.selects_iff .b).mpr (.inr ⟨hnone _, hnone _, h⟩))
    exact ⟨fun t ht => absurd ht (hnone t), fun _ h => absurd h hlast, fun _ _ => rfl⟩

/-- After any calls of either copy, both give the result of the rule; it is never an
unbootable slot while the other one is bootable. -/
theorem slot_selection_correct (calls calls' : List AbData) (d : AbData) :
    let ret := (AbMeta.callGetCurrentSlot (AbMeta.lastSlotIndexAfter calls) d).ret
    (Bootloader.callGetCurrentSlot (Bootloader.lastSlotIndexAfter calls') d).ret = ret ∧
      SelectionRule d ret ∧
      ¬ ∃ s : Slot, ret = s.number ∧ ¬ d.Bootable s ∧ d.Bootable s.other := by
  intro ret
  have hret : ret = slotNumber (AbMeta.getCurrentSlot d) := AbMeta.callGetCurrentSlot_ret _ d
  have hrule : SelectionRule d ret := by
    rw [hret]
    exact selectionRule_getCurrentSlot d
  refine ⟨?_, hrule, ?_⟩
  · rw [Bootloader.callGetCurrentSlot_ret, Bootloader.getCurrentSlot_eq, hret]
  · rintro ⟨s, hs, hboot, hother⟩
    rw [hs] at hrule
    exact hboot (hrule.bootable hother)

end LinuxOta
