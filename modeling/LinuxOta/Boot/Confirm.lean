-- SUMMARY: Confirming at every boot, as the build configuration has it: which slots stay the boot slot.
import LinuxOta.Base.Run
import LinuxOta.Boot.BootLoader
import LinuxOta.Ota.Bootloader

namespace LinuxOta

/-! # Confirming the boot slot

Built without the macros, `setSlotSucceed` writes `priority` and `last_boot` only. The tries
of a slot that is not marked successful go down at every boot, and nothing raises them. -/

/-- The build that `CMakeLists.txt` configures. -/
def cmakeBuild : Build := ⟨false, false⟩

namespace AbData

variable {d : AbData} {t : Slot}

theorem slots_confirm_self (d : AbData) (t : Slot) :
    (d.confirm cmakeBuild t).slots t = { d.slots t with priority := maxPriority } := by
  by_cases h : (d.slots t).priority = maxPriority
  · simp [confirm, cmakeBuild, ← h]
  · simp [confirm, cmakeBuild, h]

@[simp] theorem slots_confirm_other (d : AbData) (build : Build) (t : Slot) :
    (d.confirm build t).slots t.other = d.slots t.other := by
  simp [confirm]

@[simp] theorem lastBoot_confirm (d : AbData) (build : Build) (t : Slot) :
    (d.confirm build t).lastBoot = t.index := rfl

@[simp] theorem magic_confirm (d : AbData) (build : Build) (t : Slot) :
    (d.confirm build t).magic = d.magic := by
  simp [confirm]

/-- Without a bootable rival, the slot that `last_boot` names is selected. -/
theorem selects_of_lastBoot (hother : ¬ d.Bootable t.other) (h : d.lastBoot = t.index) :
    d.Selects t := by
  rw [selects_iff]
  by_cases ht : d.Bootable t
  · exact .inl ⟨ht, fun hb => absurd hb hother⟩
  · exact .inr ⟨ht, hother, h⟩

/-- A selected slot with a bootable rival is bootable and outranks it. -/
theorem Selects.outranks (h : d.Selects t) (hother : d.Bootable t.other) :
    d.Bootable t ∧ d.Outranks t t.other := by
  rcases (selects_iff d t).mp h with ⟨ht, hout⟩ | ⟨-, hnot, -⟩
  · exact ⟨ht, hout hother⟩
  · exact absurd hother hnot

/-! ## Confirming the selected slot -/

/-- The record a confirming `setSlotSucceed` stores. -/
def confirmedAs (d : AbData) (t : Slot) : AbData := (d.confirm cmakeBuild t).refreshCrc

theorem slots_confirmedAs_self (d : AbData) (t : Slot) :
    (d.confirmedAs t).slots t = { d.slots t with priority := maxPriority } := by
  rw [confirmedAs, slots_refreshCrc, slots_confirm_self]

theorem slots_confirmedAs_other (d : AbData) (t : Slot) :
    (d.confirmedAs t).slots t.other = d.slots t.other := by
  rw [confirmedAs, slots_refreshCrc, slots_confirm_other]

theorem lastBoot_confirmedAs (d : AbData) (t : Slot) : (d.confirmedAs t).lastBoot = t.index := rfl

theorem magic_confirmedAs (d : AbData) (t : Slot) : (d.confirmedAs t).magic = d.magic :=
  d.magic_confirm cmakeBuild t

theorem bootable_confirmedAs_other : (d.confirmedAs t).Bootable t.other ↔ d.Bootable t.other := by
  simp only [Bootable, slots_confirmedAs_other]

theorem InRange.confirmedAs (h : d.InRange) : (d.confirmedAs t).InRange := by
  intro s
  rcases Slot.eq_or_eq_other t s with rfl | rfl
  · rw [slots_confirmedAs_self]
    exact UInt8.le_refl _
  · rw [slots_confirmedAs_other]
    exact h _

/-- Raising the selected slot to the highest priority keeps it selected, if that leaves it
something to boot with and does not touch the other slot. -/
theorem Selects.raised {d' : AbData} (h : d.Selects t) (hrange : d.InRange)
    (hprio : (d'.slots t).priority = maxPriority) (hsame : d'.slots t.other = d.slots t.other)
    (hboot : d'.lastBoot = t.index)
    (hkeeps : d.Bootable t → 0 < (d'.slots t).successfulBoot ∨ 0 < (d'.slots t).triesRemaining) :
    d'.Selects t := by
  have hrival : d'.Bootable t.other ↔ d.Bootable t.other := by simp only [Bootable, hsame]
  by_cases hother : d.Bootable t.other
  · obtain ⟨ht, hout⟩ := h.outranks hother
    rw [selects_iff]
    refine .inl ⟨⟨?_, hkeeps ht⟩, fun _ => ?_⟩
    · rw [hprio]
      decide
    · rw [Outranks, hprio, hsame]
      rcases hout with hlt | ⟨heq, ha⟩
      · exact .inl (UInt8.lt_of_lt_of_le hlt (hrange t))
      · rcases UInt8.lt_or_eq_of_le (hrange t.other) with hlt | hmax
        · exact .inl hlt
        · exact .inr ⟨hmax, ha⟩
  · exact selects_of_lastBoot (hrival.not.mpr hother) hboot

/-- Confirming the selected slot keeps it selected. -/
theorem Selects.confirmedAs (h : d.Selects t) (hrange : d.InRange) :
    (d.confirmedAs t).Selects t := by
  refine h.raised hrange ?_ (d.slots_confirmedAs_other t) rfl fun ht => ?_
  · rw [slots_confirmedAs_self]
  · rw [slots_confirmedAs_self]
    exact ht.2

/-! ## Lasting slots -/

/-- The selected slot `t` stays selected: it is marked successful, or it has no rival, and
the next boot does not take its last try while `last_boot` names the other slot. -/
def Lasting (d : AbData) (t : Slot) : Prop :=
  0 < (d.slots t).successfulBoot ∨
  (¬ d.Bootable t.other ∧
    ¬ (d.Bootable t ∧ (d.slots t).triesRemaining = 1 ∧ d.lastBoot = t.other.index))

/-- What confirming at every boot keeps: slot `t` is selected and named by `last_boot`, and
it is marked successful if it has a rival. -/
structure Anchored (d : AbData) (t : Slot) : Prop where
  selects : d.Selects t
  lastBoot : d.lastBoot = t.index
  confirmed : d.Bootable t.other → 0 < (d.slots t).successfulBoot

theorem started_of_successful (h : 0 < (d.slots t).successfulBoot) : d.started t = d :=
  if_neg fun hc => UInt8.pos_iff_ne_zero.mp h hc.1

/-- A boot does not unseat a lasting slot. -/
theorem Lasting.unique {now : Slot} (h : d.Lasting t) (hselects : d.Selects t)
    (hnow : (d.started t).Selects now) : now = t := by
  rcases h with hsucc | ⟨hother, hlast⟩
  · rw [started_of_successful hsucc] at hnow
    exact hselects.unique hnow
  by_contra hne
  obtain rfl : now = t.other := Slot.ne_iff_eq_other.mp hne
  rcases (selects_iff _ _).mp hnow with ⟨hb, -⟩ | ⟨-, hspent, hboot⟩
  · exact hother (bootable_started_other.mp hb)
  rw [Slot.other_other] at hspent
  rw [lastBoot_started] at hboot
  rcases (selects_iff _ _).mp hselects with ⟨ht, -⟩ | ⟨-, -, hboot'⟩
  · -- the boot took the last try
    by_cases hsucc : (d.slots t).successfulBoot = 0
    · have htries : 0 < (d.slots t).triesRemaining := ht.2.resolve_left fun hpos =>
        UInt8.pos_iff_ne_zero.mp hpos hsucc
      have hspent' : ¬ 0 < ((d.started t).slots t).triesRemaining := fun hpos =>
        hspent ⟨(d.priority_started t).symm ▸ ht.1, .inr hpos⟩
      have hone : (d.slots t).triesRemaining = 1 := by
        rw [UInt8.lt_iff_toNat_lt, triesRemaining_started hsucc] at hspent'
        rw [UInt8.lt_iff_toNat_lt] at htries
        rw [← UInt8.toNat_inj]
        simp only [UInt8.toNat_zero, UInt8.toNat_one] at *
        omega
      exact hlast ⟨ht, hone, hboot⟩
    · rw [started_of_successful (UInt8.pos_iff_ne_zero.mpr hsucc)] at hspent
      exact hspent ht
  · rw [hboot] at hboot'
    cases t <;> exact absurd hboot' (by decide)

/-- The first confirmation of a lasting slot. -/
theorem Lasting.anchored (h : d.Lasting t) (hselects : d.Selects t) (hrange : d.InRange)
    (hnow : (d.started t).Selects t) : ((d.started t).confirmedAs t).Anchored t := by
  refine ⟨hnow.confirmedAs (hselects.booted_eq ▸ hrange.booted), rfl, fun hother => ?_⟩
  rw [bootable_confirmedAs_other, bootable_started_other] at hother
  rw [slots_confirmedAs_self]
  exact (d.successfulBoot_started t).symm ▸ h.resolve_right fun hnot => hnot.1 hother

/-- An anchored slot is lasting, and so stays anchored. -/
theorem Anchored.lasting (h : d.Anchored t) : d.Lasting t := by
  by_cases hother : d.Bootable t.other
  · exact .inl (h.confirmed hother)
  · refine .inr ⟨hother, fun hc => ?_⟩
    have hboot := h.lastBoot.symm.trans hc.2.2
    cases t <;> exact absurd hboot (by decide)

/-! ## Slots that are lost -/

/-- The boot that takes the last try unseats a slot that has a rival, or that `last_boot`
does not name. -/
theorem unseated (hsucc : (d.slots t).successfulBoot = 0) (htries : (d.slots t).triesRemaining = 1)
    (h : d.Bootable t.other ∨ d.lastBoot = t.other.index) : (d.started t).Selects t.other := by
  have hspent : ¬ (d.started t).Bootable t.other.other := by
    have hzero : ((d.started t).slots t).triesRemaining = 0 := by
      rw [← UInt8.toNat_inj, triesRemaining_started hsucc, htries]
      rfl
    rw [Slot.other_other]
    simp [Bootable, hsucc, hzero]
  rw [selects_iff]
  by_cases hother : d.Bootable t.other
  · exact .inl ⟨bootable_started_other.mpr hother, fun hb => absurd hb hspent⟩
  · exact .inr ⟨bootable_started_other.not.mpr hother, hspent, by
      rw [lastBoot_started]
      exact h.resolve_left hother⟩

/-- What a selected slot lacks that is not lasting. -/
theorem Selects.of_not_lasting (h : d.Selects t) (hnot : ¬ d.Lasting t) :
    (d.slots t).successfulBoot = 0 ∧ 0 < (d.slots t).triesRemaining.toNat ∧
      (d.Bootable t.other ∨ (d.slots t).triesRemaining = 1 ∧ d.lastBoot = t.other.index) := by
  rw [Lasting, not_or, not_and_or, not_not, not_not] at hnot
  obtain ⟨hpos, hrival⟩ := hnot
  have hbootable : d.Bootable t := hrival.elim (fun hother => (h.outranks hother).1) And.left
  refine ⟨?_, UInt8.lt_iff_toNat_lt.mp (hbootable.2.resolve_left hpos), hrival.imp_right And.right⟩
  by_contra hne
  exact hpos (UInt8.pos_iff_ne_zero.mpr hne)

/-- A slot with more than one try outlives a boot. -/
theorem Selects.started (h : d.Selects t) (hother : d.Bootable t.other)
    (htries : 1 < (d.slots t).triesRemaining.toNat) (hsucc : (d.slots t).successfulBoot = 0) :
    (d.started t).Selects t := by
  obtain ⟨ht, hout⟩ := h.outranks hother
  rw [selects_iff]
  refine .inl ⟨⟨?_, .inr ?_⟩, fun _ => ?_⟩
  · rw [priority_started]
    exact ht.1
  · rw [UInt8.lt_iff_toNat_lt, triesRemaining_started hsucc, UInt8.toNat_zero]
    omega
  · simpa only [Outranks, priority_started, slots_started_other] using hout

end AbData

/-! ## Rounds -/

namespace Bootloader

variable {host : Endian} {a : SlotAnswers} {m : Machine} {t now : Slot}

/-- A boot followed by a `setSlotSucceed`. -/
def confirmRound (host : Endian) (a : SlotAnswers) (m : Machine) : Machine :=
  (setSlotSucceed host cmakeBuild a m.boot).2

/-- The `setSlotSucceed` of the round returns 0. -/
def RoundSucceeds (host : Endian) (a : SlotAnswers) (m : Machine) : Prop :=
  (setSlotSucceed host cmakeBuild a m.boot).1 = 0

/-- Slot `t` is started by every boot of a run of rounds. -/
def StartsOnly (host : Endian) (t : Slot) : List SlotAnswers → Machine → Prop :=
  Run.Always (confirmRound host) fun _ m => m.record.Selects t

/-- Every `setSlotSucceed` of a run of rounds returns 0. -/
def AllConfirmed (host : Endian) : List SlotAnswers → Machine → Prop :=
  Run.Always (confirmRound host) (RoundSucceeds host)

instance (a : SlotAnswers) (m : Machine) : Decidable (RoundSucceeds host a m) :=
  inferInstanceAs (Decidable (_ = _))

instance (as : List SlotAnswers) (m : Machine) : Decidable (StartsOnly host t as m) :=
  inferInstanceAs (Decidable (Run.Always _ _ _ _))

instance (as : List SlotAnswers) (m : Machine) : Decidable (AllConfirmed host as m) :=
  inferInstanceAs (Decidable (Run.Always _ _ _ _))

theorem record_confirmRound (hmagic : m.record.magic = abMagic) (h : RoundSucceeds host a m) :
    ∃ now, m.record.booted.Selects now ∧
      (confirmRound host a m).record = m.record.booted.confirmedAs now := by
  have hmagic' : m.boot.record.magic = abMagic := by
    rw [Machine.record_boot, AbData.magic_booted, hmagic]
  have hsuccess := setSlotSucceed_success hmagic' h
  rwa [Machine.record_boot] at hsuccess

/-- A round in which nothing fails. -/
def faultless : SlotAnswers := ⟨.filled, .stored⟩

variable (host) in
theorem faultless_succeeds (hmagic : m.record.magic = abMagic) (h : m.record.booted.Selects now) :
    RoundSucceeds host faultless m := by
  have hmagic' : m.boot.record.magic = abMagic := by
    rw [Machine.record_boot, AbData.magic_booted, hmagic]
  have hconfirmed : faultless.confirmed cmakeBuild m.boot =
      some (m.record.booted.confirmedAs now) := by
    have hslot : getCurrentSlot m.record.booted = some now := getCurrentSlot_eq ▸ h
    rw [SlotAnswers.confirmed, if_pos ⟨rfl, rfl, hmagic'⟩, Machine.record_boot, hslot]
    rfl
  rw [RoundSucceeds, (setSlotSucceed_effect hmagic').ret, hconfirmed]
  rfl

variable (host) in
theorem record_faultless (hmagic : m.record.magic = abMagic) (h : m.record.booted.Selects now) :
    (confirmRound host faultless m).record = m.record.booted.confirmedAs now := by
  obtain ⟨now', hnow', hrecord⟩ := record_confirmRound hmagic (faultless_succeeds host hmagic h)
  rw [hrecord, h.unique hnow']

/-! ## Runs -/

/-- The record has the right magic, and priorities in range. -/
structure Sane (m : Machine) : Prop where
  magic : m.record.magic = abMagic
  inRange : m.record.InRange

theorem Sane.confirmRound (h : Sane m) (hsucceeds : RoundSucceeds host a m) :
    Sane (confirmRound host a m) := by
  obtain ⟨now, -, hrecord⟩ := record_confirmRound h.magic hsucceeds
  constructor
  · rw [hrecord, AbData.magic_confirmedAs, AbData.magic_booted, h.magic]
  · rw [hrecord]
    exact h.inRange.booted.confirmedAs

/-- A round anchors a lasting slot. -/
theorem anchored_confirmRound (h : Sane m) (hlasting : m.record.Lasting t)
    (hselects : m.record.Selects t)
    (hsucceeds : RoundSucceeds host a m) : (confirmRound host a m).record.Anchored t := by
  obtain ⟨now, hnow, hrecord⟩ := record_confirmRound h.magic hsucceeds
  rw [hselects.booted_eq] at hnow hrecord
  obtain rfl : now = t := hlasting.unique hselects hnow
  rw [hrecord]
  exact hlasting.anchored hselects h.inRange hnow

/-- An anchored slot is started by every boot. -/
theorem startsOnly_of_anchored {as : List SlotAnswers} (hsane : Sane m)
    (hanchored : m.record.Anchored t) (hall : AllConfirmed host as m) : StartsOnly host t as m :=
  Run.always_of_invariant (I := fun m => Sane m ∧ m.record.Anchored t)
    (fun _ _ hsucceeds ⟨hsane, hanchored⟩ => ⟨hanchored.selects, hsane.confirmRound hsucceeds,
      anchored_confirmRound hsane hanchored.lasting hanchored.selects hsucceeds⟩)
    as m hall ⟨hsane, hanchored⟩

variable (host) in
/-- A slot that is neither marked successful nor lasting loses its place when its tries are
used up: `tries` is how many it has. -/
theorem exists_unseating_run (tries : Nat) : ∀ m : Machine, Sane m → m.record.Selects t →
    (m.record.slots t).successfulBoot = 0 → (m.record.slots t).triesRemaining.toNat = tries + 1 →
    (m.record.Bootable t.other ∨ tries = 0 ∧ m.record.lastBoot = t.other.index) →
    ∃ as, AllConfirmed host as m ∧ ¬ StartsOnly host t as m := by
  induction tries with
  | zero =>
    intro m hsane hselects hsucc htries hrival
    have hone : (m.record.slots t).triesRemaining = 1 := UInt8.toNat_inj.mp htries
    have hunseated : m.record.booted.Selects t.other := by
      rw [hselects.booted_eq]
      exact AbData.unseated hsucc hone (hrival.imp_right And.right)
    have hsucceeds := faultless_succeeds host hsane.magic hunseated
    have hrecord := record_faultless host hsane.magic hunseated
    have hother : (confirmRound host faultless m).record.Selects t.other := by
      rw [hrecord]
      exact hunseated.confirmedAs hsane.inRange.booted
    obtain ⟨now, hnow⟩ : ∃ now, (confirmRound host faultless m).record.booted.Selects now := by
      rw [hother.booted_eq]
      apply AbData.exists_selects
      rw [AbData.lastBoot_started, hrecord, AbData.lastBoot_confirmedAs]
    refine ⟨[faultless, faultless], ⟨hsucceeds, ?_, trivial⟩, fun hstays => ?_⟩
    · exact faultless_succeeds host (hsane.confirmRound hsucceeds).magic hnow
    · exact t.other_ne (hstays.2.1.unique hother)
  | succ tries ih =>
    intro m hsane hselects hsucc htries hrival
    have hother : m.record.Bootable t.other := hrival.resolve_right fun h => by omega
    have hstarted : m.record.booted.Selects t := by
      rw [hselects.booted_eq]
      exact hselects.started hother (by omega) hsucc
    have hsucceeds := faultless_succeeds host hsane.magic hstarted
    have hrecord := record_faultless host hsane.magic hstarted
    have hother' : (confirmRound host faultless m).record.Bootable t.other := by
      rw [hrecord, AbData.bootable_confirmedAs_other, hselects.booted_eq]
      exact AbData.bootable_started_other.mpr hother
    have hsucc' : ((confirmRound host faultless m).record.slots t).successfulBoot = 0 := by
      rw [hrecord, AbData.slots_confirmedAs_self, hselects.booted_eq]
      exact (m.record.successfulBoot_started t).trans hsucc
    have htries' : ((confirmRound host faultless m).record.slots t).triesRemaining.toNat =
        tries + 1 := by
      rw [hrecord, AbData.slots_confirmedAs_self, hselects.booted_eq]
      exact (AbData.triesRemaining_started hsucc).trans (by omega)
    obtain ⟨as, hall, hlost⟩ := ih _ (hsane.confirmRound hsucceeds)
      (hrecord ▸ hstarted.confirmedAs hsane.inRange.booted) hsucc' htries' (.inl hother')
    exact ⟨faultless :: as, ⟨hsucceeds, hall⟩, fun hstays => hlost hstays.2⟩

end Bootloader

open Bootloader

/-- When every boot is confirmed, every boot starts the same slot exactly if the one that is
selected is lasting. -/
theorem confirmed_boots_agree_iff (host : Endian) (m : Machine) (hmagic : m.record.magic = abMagic)
    (hpriority : ∀ s, (m.record.slots s).priority ≤ maxPriority) :
    (∀ as, AllConfirmed host as m → ∃ t, StartsOnly host t as m) ↔
      ∀ t, m.record.Selects t → m.record.Lasting t := by
  have hsane : Sane m := ⟨hmagic, hpriority⟩
  constructor
  · intro h t hselects
    by_contra hnot
    obtain ⟨hsucc, htries, hrival⟩ := hselects.of_not_lasting hnot
    have hrival' : m.record.Bootable t.other ∨
        (m.record.slots t).triesRemaining.toNat - 1 = 0 ∧ m.record.lastBoot = t.other.index :=
      hrival.imp_right fun ⟨hone, hboot⟩ => ⟨by rw [hone]; rfl, hboot⟩
    obtain ⟨as, hall, hlost⟩ := exists_unseating_run host
      ((m.record.slots t).triesRemaining.toNat - 1) m hsane hselects hsucc (by omega) hrival'
    obtain ⟨t', hstays⟩ := h as hall
    cases as with
    | nil => exact hlost trivial
    | cons a as =>
      obtain rfl : t' = t := hselects.unique hstays.1
      exact hlost hstays
  · intro h as hall
    cases as with
    | nil => exact ⟨.a, trivial⟩
    | cons a as =>
      obtain ⟨now, hnow, -⟩ := record_confirmRound hmagic hall.1
      obtain ⟨t, hselects⟩ : ∃ t, m.record.Selects t := by
        cases hslot : AbMeta.getCurrentSlot m.record with
        | some t => exact ⟨t, hslot⟩
        | none =>
          simp only [AbData.booted, hslot] at hnow
          exact ⟨now, hnow⟩
      exact ⟨t, hselects, startsOnly_of_anchored (hsane.confirmRound hall.1)
        (anchored_confirmRound hsane (h t hselects) hselects hall.1) hall.2⟩

theorem confirmed_boots_agree_deviceOn :
    ∃ t, StartsOnly .little t (List.replicate 8 faultless) (deviceOn .a) := by
  have hpriority : ∀ s, ((deviceOn .a).record.slots s).priority ≤ maxPriority := by
    intro s
    cases s <;> decide +kernel
  have hconfirmed : ∀ s, 0 < ((deviceOn .a).record.slots s).successfulBoot := by
    intro s
    cases s <;> decide +kernel
  exact (confirmed_boots_agree_iff .little (deviceOn .a) (by decide +kernel) hpriority).mpr
    (fun t _ => .inl (hconfirmed t)) (List.replicate 8 faultless) (by decide +kernel)

/-- A device that an update has switched to slot `b`. -/
def updatedDevice : Machine := (setSlotActivity .little faultless (deviceOn .a)).2

/-- Slot `b` is confirmed at each of its seven boots, and the eighth boot starts slot `a`. -/
theorem confirmed_boots_disagree :
    ¬ ∀ (host : Endian) (m : Machine), m.record.magic = abMagic →
      (∀ s, (m.record.slots s).priority ≤ maxPriority) →
      ∀ as, AllConfirmed host as m → ∃ t, StartsOnly host t as m := by
  intro h
  have hmagic : updatedDevice.record.magic = abMagic := by decide +kernel
  have hpriority : ∀ s, (updatedDevice.record.slots s).priority ≤ maxPriority := by
    intro s
    cases s <;> decide +kernel
  have hall : AllConfirmed .little (List.replicate 8 faultless) updatedDevice := by decide +kernel
  obtain ⟨t, hstays⟩ := h .little updatedDevice hmagic hpriority _ hall
  have hlost : ∀ s, ¬ StartsOnly .little s (List.replicate 8 faultless) updatedDevice := by
    intro s
    cases s <;> decide +kernel
  exact hlost t hstays

end LinuxOta
