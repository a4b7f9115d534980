-- SUMMARY: The life of a device, update by update and boot by boot: the slot it starts always holds a release.
import Mathlib.Logic.Relation
import LinuxOta.AbMeta.Durability
import LinuxOta.Boot.RecordRuns
import LinuxOta.Boot.Settled
import LinuxOta.Ota.MiscImages
import LinuxOta.Upgrade.ActivationSafety
import LinuxOta.Upgrade.BootDecision

namespace LinuxOta

/-! # The life of a device

An update may stop anywhere: a call that fails stands for the power that fails, and a write
of the record may be torn. -/

variable (Release : (Part → Bytes) → Prop)

/-- The partitions of slot `s` hold a release. -/
def Machine.Holds (m : Machine) (s : Slot) : Prop :=
  ∃ imgs, Release imgs ∧ ∀ part, (m.devs (destPath part s)).read 0 (imgs part).length = imgs part

/-- What the steps of a device keep: both slots hold a release, or the one does that every
boot to come starts. -/
structure Machine.Safe (m : Machine) : Prop where
  valid : m.record.Valid
  standing : (∀ s, m.Holds Release s) ∨ ∃ t, m.record.Settled t ∧ m.Holds Release t

/-- The images in the packet and the partitions it has no image for make up a release, and
every image is copied whole. -/
def Upgrade.PacketAnswers.Completes (a : PacketAnswers) (g : FlashCtrl) (ctrl : UpgradeCtrl) (m : Machine)
    (packet : String) (slot : Slot) : Prop :=
  ∃ imgs, Release imgs ∧ ∀ part,
    (imageFile ctrl.tempDir (a.unpacked ctrl m packet) part = some (imgs part) ∧
      (a.image part).Delivers g (imgs part)) ∨
    (imageFile ctrl.tempDir (a.unpacked ctrl m packet) part = none ∧
      (m.devs (destPath part slot.other)).read 0 (imgs part).length = imgs part)

namespace Bootloader.MiscUpdateAnswers

/-- `tar` succeeds, and every image `flash_write` finds is copied to the slot opposite to
`slot`. -/
structure Writes (a : MiscUpdateAnswers) (args : UpdateArgs) (m : Machine) (tarPath : String) (parts : List Part)
    (slot : Slot) : Prop where
  tar : args.tarPath = some tarPath
  status : (a.system (args.unpackCmd tarPath) m.files).1 = 0
  selects : m.record.Selects slot
  parts : partsNamed (args.updatePartition.getD "all") = some parts
  images : (flashWrite a (saveDirectory args.saveDir) (args.updatePartition.getD "all") args.extraPartition
    (a.afterTar args tarPath m)).1 = 0

/-- The images found and the partitions none is found for make up a release, and every image
is copied whole. -/
def Completes (a : MiscUpdateAnswers) (args : UpdateArgs) (m : Machine) (tarPath : String) (parts : List Part)
    (slot : Slot) : Prop :=
  (∀ part, args.extraPartition ≠ some (Part.name part)) ∧ ∃ imgs, Release imgs ∧ ∀ part,
    (if part ∈ parts ∧ a.finds (saveDirectory args.saveDir) (a.afterTar args tarPath m).files (.part part) then
      (a.image (.part part)).left (m.devs (destPath part slot.other))
    else m.devs (destPath part slot.other)).read 0 (imgs part).length = imgs part

end Bootloader.MiscUpdateAnswers

/-- A driver that leaves the buffer alone when it reads leaves the device alone when it
writes. -/
def AbMeta.MetaAnswers.OneDriver (a : MetaAnswers) : Prop :=
  a.read = .ignored → a.write = .ignored

/-- The drivers of the flash layer are like that. -/
theorem FlashState.oneDriver_answers (st : FlashState) (os : AbMeta.OsAnswers) :
    (st.answers os).OneDriver := by
  intro hread
  cases hops : st.ops with
  | none => simp [FlashState.answers, hops] at hread
  | some ops =>
    cases ops <;> cases hread' : os.read <;> simp_all [FlashState.answers, FlashOps.read, FlashOps.write]

/-- One step of a device. The conditions are on the state the step is taken in, and on the
contents of a packet. -/
inductive LifeStep (host : Endian) (m : Machine) : Machine → Prop where
  /-- Files come and go, packets among them. -/
  | files (files : String → Option Bytes) : LifeStep host m { m with files := files }
  | boot (cmdline : List Char) : LifeStep host m { m.boot with cmdline := cmdline }
  | packet (g : FlashCtrl) (ctrl : Upgrade.UpgradeCtrl) (a : Upgrade.PacketAnswers) (p : Option String)
      (hsettled : ∀ slot, a.Starts ctrl m slot → m.record.Settled slot)
      (hcomplete : ∀ q slot, p = some q → a.Reports g ctrl m q slot →
        a.Completes Release g ctrl m q slot) :
      LifeStep host m (Upgrade.packet g host ctrl a p m).2
  | setSlotSucceed (build : Build) (a : Bootloader.SlotAnswers) (hatomic : a.Atomic)
      (hbuild : build.retryBoot = false ∨ ∀ s, m.Holds Release s) :
      LifeStep host m (Bootloader.setSlotSucceed host build a m).2
  | activeCurrentSlot (g : FlashCtrl) (a : AbMeta.MetaAnswers) (hdriver : a.OneDriver)
      (hmark : (∀ t, m.record.Settled t → m.record.Marked t ∨ t = .a) ∨ ∀ s, m.Holds Release s) :
      LifeStep host m (AbMeta.activeCurrentSlot g host a m).2
  | activeAnotherSlot (g : FlashCtrl) (a : AbMeta.MetaAnswers) (hboth : ∀ s, m.Holds Release s) :
      LifeStep host m (AbMeta.activeAnotherSlot g host a m).2
  | setSlotActivity (a : Bootloader.SlotAnswers) (hatomic : a.Atomic) (hboth : ∀ s, m.Holds Release s) :
      LifeStep host m (Bootloader.setSlotActivity host a m).2
  | miscUpdate (args : Bootloader.UpdateArgs) (a : Bootloader.MiscUpdateAnswers) (hatomic : a.activity.Atomic)
      (hsettled : a.Copies args m → ∀ slot, m.record.Selects slot → m.record.Settled slot)
      (hcomplete : ∀ tarPath parts slot, a.Writes args m tarPath parts slot →
        m.record.Settled slot ∧ a.Completes Release args m tarPath parts slot) :
      LifeStep host m (args.run host a m).2

/-! ## What the steps do to the record -/

namespace AbData

variable {d : AbData} {t : Slot}

theorem Valid.booted (h : d.Valid) : d.booted.Valid := by
  cases hslot : AbMeta.getCurrentSlot d with
  | none => simpa only [AbData.booted, hslot] using h
  | some t =>
    rw [Selects.booted_eq hslot]
    rcases d.started_cases t with ⟨-, heq⟩ | ⟨-, htries, heq⟩
    · rwa [heq]
    · rw [heq]
      refine (h.revises.lowered ?_).toValid
      have hone : 1 ≤ (d.slots t).triesRemaining :=
        UInt8.le_iff_toNat_le.mpr (UInt8.lt_iff_toNat_lt.mp htries)
      rw [UInt8.le_iff_toNat_le, UInt8.toNat_sub_of_le _ _ hone]
      exact Nat.sub_le _ _

/-- A torn write of a valid record over a valid one leaves a valid one. -/
theorem Valid.torn {misc : Content} (h : (recordAt misc).Valid) (hd : d.Valid) (n : Nat) :
    (recordAt (misc.overwrite metaDataOffset (d.toBytes.take n))).Valid := by
  obtain ⟨ha, hta, -, hb, htb, -, hl⟩ := recordAt_partial misc d n
  have hpick : ∀ {c : Prop} [Decidable c] (P : AbData → Prop), P d → P (recordAt misc) →
      P (if c then d else recordAt misc) := by
    intro c _ P hnew hold
    split
    · exact hnew
    · exact hold
  refine ⟨fun s => ?_, fun s => ?_, ?_⟩
  · cases s with
    | a => exact ha ▸ hpick (·.slotA.priority ≤ maxPriority) (hd.priority .a) (h.priority .a)
    | b => exact hb ▸ hpick (·.slotB.priority ≤ maxPriority) (hd.priority .b) (h.priority .b)
  · cases s with
    | a => exact hta ▸ hpick (·.slotA.triesRemaining ≤ maxTriesRemaining) (hd.tries .a) (h.tries .a)
    | b => exact htb ▸ hpick (·.slotB.triesRemaining ≤ maxTriesRemaining) (hd.tries .b) (h.tries .b)
  · exact hl ▸ hpick (fun r => ∃ s : Slot, r.lastBoot = s.index) hd.lastBoot h.lastBoot

theorem valid_zero : (ofBytes (List.replicate 32 0)).Valid := by
  refine ⟨fun s => ?_, fun s => ?_, .a, rfl⟩ <;> cases s <;> exact UInt8.zero_le

end AbData

section
variable {Release} {host : Endian} {m m' : Machine}

theorem AbMeta.valid_bufferAfter (read : ReadAnswer) (h : m.record.Valid) : (bufferAfter read m).Valid := by
  cases read with
  | filled => exact h
  | ignored => exact AbData.valid_zero
  | failed => exact AbData.valid_zero

theorem AbMeta.valid_switchedRecord {d : AbData} (h : d.Valid) (current : Slot) :
    (switchedRecord d current).Valid :=
  ((h.revises.switchFrom current).setLastBoot .a).refreshCrc.toValid

/-- What an operation of ab_meta leaves is valid, torn or not. -/
theorem valid_handedMisc {write : WriteAnswer} {d : Option AbData} (h : m.record.Valid)
    (hd : ∀ d', d = some d' → d'.Valid) :
    (recordAt (handedMisc write.onRecord (m.devs miscPath) d)).Valid := by
  cases d with
  | none => exact h
  | some d => exact AbData.Valid.torn h (hd d rfl) _

/-! ## What the steps do to the partitions -/

theorem Machine.Holds.congr {s : Slot} (h : m.Holds Release s)
    (hdevs : ∀ part, m'.devs (destPath part s) = m.devs (destPath part s)) : m'.Holds Release s := by
  obtain ⟨imgs, hrelease, hread⟩ := h
  exact ⟨imgs, hrelease, fun part => by rw [hdevs, hread]⟩

/-- An operation on the record leaves the partitions. -/
theorem RecordChange.holds {write : RecordWrite} {d : Option AbData} {s : Slot}
    (h : RecordChange write d m m') (hholds : m.Holds Release s) : m'.Holds Release s := by
  refine hholds.congr fun part => ?_
  rw [h.devs, Function.update_of_ne (destPath_ne_miscPath part s)]

/-- If the record stays settled, the partitions of the settled slot are enough. -/
theorem RecordChange.safe {write : RecordWrite} {d : Option AbData} (h : RecordChange write d m m')
    (hsafe : m.Safe Release) (hvalid : m'.record.Valid)
    (hstays : (∀ s, m.Holds Release s) ∨ ∀ t, m.record.Settled t → m'.record.Settled t) :
    m'.Safe Release := by
  refine ⟨hvalid, ?_⟩
  rcases hsafe.standing with hboth | ⟨t, hsettled, hholds⟩
  · exact .inl fun s => h.holds (hboth s)
  · rcases hstays with hboth | hstays
    · exact .inl fun s => h.holds (hboth s)
    · exact .inr ⟨t, hstays t hsettled, h.holds hholds⟩

section
open Upgrade

variable {g : FlashCtrl} {ctrl : UpgradeCtrl} {a : PacketAnswers} {p : Option String} {slot : Slot}

/-- What holds of the slot an update takes for the running one. -/
theorem Machine.Safe.holds_of_settled (h : m.Safe Release) (hsettled : m.record.Settled slot) :
    m.Holds Release slot := by
  rcases h.standing with hboth | ⟨t, ht, hholds⟩
  · exact hboth slot
  · exact ht.unique hsettled ▸ hholds

/-- A call leaves the partitions of the slot it takes for the running one. -/
theorem holds_packet {s : Slot} (hstarts : ∀ slot, a.Starts ctrl m slot → slot = s)
    (hholds : m.Holds Release s) : (packet g host ctrl a p m).2.Holds Release s := by
  obtain ⟨ret, acts, devs, hrun, -, -, hdevs⟩ := packet_run g host ctrl a m p
  refine hholds.congr fun part => ?_
  rw [hdevs]
  apply hrun.devs_of_ne (destPath_ne_miscPath part s)
  intro slot part' hslot heq
  have hother := (destPath_injective heq).2
  rw [hstarts slot hslot] at hother
  exact Slot.ne_other s hother

/-- A call that reports success leaves a release on the other slot. -/
theorem holds_other_packet {q : String} (hreports : a.Reports g ctrl m q slot)
    (hcomplete : a.Completes Release g ctrl m q slot) :
    (packet g host ctrl a (some q) m).2.Holds Release slot.other := by
  obtain ⟨imgs, hrelease, hparts⟩ := hcomplete
  refine ⟨imgs, hrelease, fun part => ?_⟩
  obtain ⟨o, hret, hrun, hstore⟩ := packet_partition host hreports part
  rw [hstore]
  rcases hparts part with ⟨himg, hdelivers⟩ | ⟨hnone, hthere⟩
  · rw [himg] at hrun
    exact (hrun.holds_iff hret).mpr hdelivers _
  · rw [hnone] at hrun
    rwa [hrun.store_of_none]

theorem safe_packet (h : m.Safe Release)
    (hsettled : ∀ slot, a.Starts ctrl m slot → m.record.Settled slot)
    (hcomplete : ∀ q slot, p = some q → a.Reports g ctrl m q slot → a.Completes Release g ctrl m q slot) :
    (packet g host ctrl a p m).2.Safe Release := by
  have hrunning : ∀ slot, a.Starts ctrl m slot → (packet g host ctrl a p m).2.Holds Release slot :=
    fun slot hstarts => holds_packet (fun _ => hstarts.slot_eq) (h.holds_of_settled (hsettled slot hstarts))
  by_cases hreports : ∃ q slot, p = some q ∧ a.Reports g ctrl m q slot
  · obtain ⟨q, slot, rfl, hreports⟩ := hreports
    refine ⟨?_, .inl fun s => ?_⟩
    · rw [(packet_reports host hreports).2]
      refine valid_handedMisc h.valid fun d hd => ?_
      obtain ⟨-, current, -, rfl⟩ := AbMeta.MetaAnswers.switched_eq_some_iff.mp hd
      exact AbMeta.valid_switchedRecord (AbMeta.valid_bufferAfter _ h.valid) current
    · rcases Slot.eq_or_eq_other slot s with rfl | rfl
      · exact hrunning s hreports.starts
      · exact holds_other_packet hreports (hcomplete q slot rfl hreports)
  · -- the record is as it was, and so is the slot it settles on
    obtain ⟨ret, acts, devs, hrun, -, -, hdevs⟩ := packet_run g host ctrl a m p
    have hrecord : (packet g host ctrl a p m).2.record = m.record := by
      rcases hrun.reports_or_not with ⟨q, slot, -, -, hp, hr, -⟩ | ⟨-, -, hmisc, -⟩
      · exact absurd ⟨q, slot, hp, hr⟩ hreports
      · rw [Machine.record, hdevs, hmisc, Machine.record]
    refine ⟨hrecord ▸ h.valid, ?_⟩
    by_cases hstarts : ∃ slot, a.Starts ctrl m slot
    · obtain ⟨slot, hstarts⟩ := hstarts
      exact .inr ⟨slot, hrecord ▸ hsettled slot hstarts, hrunning slot hstarts⟩
    · have hkeeps : ∀ s, m.Holds Release s → (packet g host ctrl a p m).2.Holds Release s :=
        fun s => holds_packet fun slot hslot => absurd ⟨slot, hslot⟩ hstarts
      rcases h.standing with hboth | ⟨t, ht, hholds⟩
      · exact .inl fun s => hkeeps s (hboth s)
      · exact .inr ⟨t, hrecord ▸ ht, hkeeps t hholds⟩

end

/-! ## Runs -/

theorem safe_boot (h : m.Safe Release) : m.boot.Safe Release := by
  have hholds : ∀ s, m.Holds Release s → m.boot.Holds Release s := fun s hs =>
    hs.congr fun part => Function.update_of_ne (destPath_ne_miscPath part s) _ _
  refine ⟨?_, ?_⟩
  · rw [Machine.record_boot]
    exact h.valid.booted
  · rw [Machine.record_boot]
    rcases h.standing with hboth | ⟨t, ht, hs⟩
    · exact .inl fun s => hholds s (hboth s)
    · exact .inr ⟨t, ht.booted, hholds t hs⟩

theorem safe_setSlotSucceed {build : Build} {a : Bootloader.SlotAnswers} (h : m.Safe Release)
    (hatomic : a.Atomic) (hbuild : build.retryBoot = false ∨ ∀ s, m.Holds Release s) :
    (Bootloader.setSlotSucceed host build a m).2.Safe Release := by
  have hchange : RecordChange a.write.onRecord (a.confirmed build m) m
      (Bootloader.setSlotSucceed host build a m).2 := Bootloader.setSlotSucceed_change
  have hcases : (Bootloader.setSlotSucceed host build a m).2.record = m.record ∨
      ∃ now, m.record.Selects now ∧
        (Bootloader.setSlotSucceed host build a m).2.record = (m.record.confirm build now).refreshCrc := by
    refine (hatomic.record_cases hchange).imp_right fun hd => ?_
    simp only [Bootloader.SlotAnswers.confirmed, Option.ite_none_right_eq_some,
      Option.map_eq_some_iff] at hd
    obtain ⟨-, now, hnow, hd⟩ := hd
    rw [Bootloader.getCurrentSlot_eq] at hnow
    exact ⟨now, hnow, hd.symm⟩
  rcases hcases with heq | ⟨now, hnow, heq⟩
  · exact hchange.safe h (heq ▸ h.valid) (.inr fun t ht => heq ▸ ht)
  · refine hchange.safe h ?_ ?_
    · rw [heq]
      exact (h.valid.revises.confirm build now).refreshCrc.toValid
    · refine hbuild.symm.imp_right fun hretry t ht => ?_
      obtain rfl := hnow.unique ht.selects
      rw [heq]
      exact ht.confirm h.valid.priority hretry

theorem safe_setSlotActivity {a : Bootloader.SlotAnswers} (h : m.Safe Release) (hatomic : a.Atomic)
    (hboth : ∀ s, m.Holds Release s) : (Bootloader.setSlotActivity host a m).2.Safe Release := by
  have heffect := (Bootloader.setSlotActivity_effect host (a := a) (m := m)).toRecordChange
  refine heffect.safe h ?_ (.inl hboth)
  rcases hatomic.record_cases heffect with heq | hd
  · exact heq ▸ h.valid
  · simp only [Bootloader.SlotAnswers.switched, Option.ite_none_right_eq_some,
      Option.map_eq_some_iff] at hd
    obtain ⟨-, now, -, hd⟩ := hd
    rw [← hd]
    exact (h.valid.revises.switchFrom now).refreshCrc.toValid

theorem safe_activeAnotherSlot {g : FlashCtrl} {a : AbMeta.MetaAnswers} (h : m.Safe Release)
    (hboth : ∀ s, m.Holds Release s) : (AbMeta.activeAnotherSlot g host a m).2.Safe Release := by
  have heffect := (AbMeta.activeAnotherSlot_effect host (g := g) (a := a) (m := m)).toRecordChange
  refine heffect.safe h ?_ (.inl hboth)
  rw [heffect.record]
  refine valid_handedMisc h.valid fun d hd => ?_
  obtain ⟨-, current, -, rfl⟩ := AbMeta.MetaAnswers.switched_eq_some_iff.mp hd
  exact AbMeta.valid_switchedRecord (AbMeta.valid_bufferAfter _ h.valid) current

/-- `rk_ab_meta_active_current_slot` names slot `a` in `last_boot`, whole or torn, and leaves
the slots. -/
theorem safe_activeCurrentSlot {g : FlashCtrl} {a : AbMeta.MetaAnswers} (h : m.Safe Release)
    (hdriver : a.OneDriver)
    (hmark : (∀ t, m.record.Settled t → m.record.Marked t ∨ t = .a) ∨ ∀ s, m.Holds Release s) :
    (AbMeta.activeCurrentSlot g host a m).2.Safe Release := by
  have heffect := (AbMeta.activeCurrentSlot_effect host (g := g) (a := a) (m := m)).toRecordChange
  refine heffect.safe h ?_ ?_
  · rw [heffect.record]
    refine valid_handedMisc h.valid fun d hd => ?_
    simp only [AbMeta.MetaAnswers.confirmed, Option.ite_none_right_eq_some, Option.some.injEq] at hd
    obtain ⟨-, rfl⟩ := hd
    exact ((AbMeta.valid_bufferAfter _ h.valid).revises.setLastBoot .a).refreshCrc.toValid
  · refine hmark.symm.imp_right fun hmark t ht => ?_
    rw [heffect.record]
    cases hconfirmed : a.confirmed g m with
    | none => exact ht
    | some d =>
      simp only [AbMeta.MetaAnswers.confirmed, Option.ite_none_right_eq_some,
        Option.some.injEq] at hconfirmed
      obtain ⟨⟨-, hfailed, -⟩, rfl⟩ := hconfirmed
      by_cases hread : a.read = .ignored
      · -- the driver stores nothing either
        simp only [handedMisc, WriteAnswer.onRecord, hdriver hread, WriteAnswer.reached, List.take_zero,
          Content.overwrite_nil]
        exact ht
      · rw [AbMeta.bufferAfter_eq hread hfailed]
        obtain ⟨ha, hta, hsa, hb, htb, hsb, hl⟩ :=
          recordAt_partial (m.devs miscPath) (AbMeta.confirmedRecord m.record)
            (a.write.reached (AbMeta.confirmedRecord m.record).toBytes.length)
        have hsame : ∀ {c : Prop} [Decidable c] (f : AbData → UInt8),
            f (AbMeta.confirmedRecord m.record) = f m.record →
            f (if c then AbMeta.confirmedRecord m.record else recordAt (m.devs miscPath)) = f m.record := by
          intro c _ f hf
          split
          · exact hf
          · rfl
        refine ht.congr (fun s => ?_) (fun s => ?_) (fun s => ?_) ?_
        · cases s with
          | a => exact ha.trans (hsame (·.slotA.priority) rfl)
          | b => exact hb.trans (hsame (·.slotB.priority) rfl)
        · cases s with
          | a => exact hta.trans (hsame (·.slotA.triesRemaining) rfl)
          | b => exact htb.trans (hsame (·.slotB.triesRemaining) rfl)
        · cases s with
          | a => exact hsa.trans (hsame (·.slotA.successfulBoot) rfl)
          | b => exact hsb.trans (hsame (·.slotB.successfulBoot) rfl)
        · rcases hmark t ht with hmarked | rfl
          · exact .inl hmarked
          · refine .inr ?_
            refine Or.imp hl.trans hl.trans ?_
            split
            · exact .inl rfl
            · exact .inr rfl

section
open Bootloader

variable {a : MiscUpdateAnswers} {args : UpdateArgs} {tarPath : String} {parts : List Part} {slot : Slot}

/-- An image that is copied leaves the partitions of the slot the record selects. -/
theorem holds_flashWrite {imageDir partition : String} {extraPartition : Option String}
    (hslot : m.record.Selects slot) (hholds : m.Holds Release slot) :
    (flashWrite a imageDir partition extraPartition m).2.Holds Release slot := by
  rcases flashWrite_cases (a := a) imageDir partition extraPartition m with heq | ⟨s, parts, -, hs, -, heq⟩
  · rw [heq]
    exact hholds.congr fun part => rfl
  · obtain rfl := hs.unique hslot
    rw [heq]
    refine hholds.congr fun part => ?_
    rw [(flashWriteImages_frame _ _).1]
    · rfl
    intro site _ hpath
    have hsuffix := (Site.carriesSuffix_iff (.part part) slot slot).mpr rfl
    rw [Site.destPath_part, hpath, Site.carriesSuffix_iff] at hsuffix
    exact Slot.other_ne slot hsuffix

/-- If all images are copied, the other slot holds the release they make up. -/
theorem holds_other_flashWrite (hwrites : a.Writes args m tarPath parts slot)
    (hcomplete : a.Completes Release args m tarPath parts slot) :
    (flashWrite a (saveDirectory args.saveDir) (args.updatePartition.getD "all") args.extraPartition
      (a.afterTar args tarPath m)).2.Holds Release slot.other := by
  obtain ⟨hextra, imgs, hrelease, hparts⟩ := hcomplete
  have himages := hwrites.images
  rcases flashWrite_cases (a := a) (saveDirectory args.saveDir) (args.updatePartition.getD "all")
    args.extraPartition (a.afterTar args tarPath m) with heq | ⟨s, parts', -, hs, hparts', heq⟩
  · rw [heq] at himages
    exact absurd himages (by simp)
  obtain rfl := hs.unique hwrites.selects
  obtain rfl := Option.some.inj (hparts'.symm.trans hwrites.parts)
  have hnodup : ((sitesOf parts' args.extraPartition).map Site.name).Nodup := by
    refine sitesOf_nodup (partsNamed_nodup hparts') fun name p hname heq => ?_
    exact hextra p (heq ▸ hname)
  rw [heq] at himages ⊢
  refine ⟨imgs, hrelease, fun part => ?_⟩
  refine Eq.trans ?_ (hparts part)
  rw [← Site.destPath_part]
  by_cases hmem : part ∈ parts'
  · have hsite : .part part ∈ sitesOf parts' args.extraPartition :=
      List.mem_append_left _ (List.mem_map_of_mem hmem)
    rw [(flashWriteImages_content _ _ himages hnodup _ hsite).2]
    simp only [hmem, true_and]
    rfl
  · rw [if_neg (fun h => hmem h.1), (flashWriteImages_frame _ _).1]
    · rfl
    intro site hsite hpath
    have hname := Site.destPath_name hpath
    rw [sitesOf, List.mem_append, List.mem_map] at hsite
    rcases hsite with ⟨part', hpart', rfl⟩ | hsite
    · exact hmem (Part.name_injective hname ▸ hpart')
    · cases hopt : args.extraPartition with
      | none => simp [hopt] at hsite
      | some name =>
        simp only [hopt, Option.map_some, Option.toList_some, List.mem_singleton] at hsite
        subst hsite
        exact hextra part (hopt.trans (congrArg some hname.symm))

theorem record_flashWrite (imageDir partition : String) (extraPartition : Option String) :
    (flashWrite a imageDir partition extraPartition m).2.record = m.record := by
  obtain ⟨slot, acts, hwrites, -⟩ := flashWrite_writes (a := a) (m := m) imageDir partition extraPartition
  rw [Machine.record, hwrites.misc, Machine.record]

/-- An update that is interrupted has written nothing, or the slot the record selects is as
it was. -/
theorem safe_flashWrite {imageDir partition : String} {extraPartition : Option String} (h : m.Safe Release)
    (hsettled : ∀ slot parts, a.read = .filled → m.record.Selects slot → partsNamed partition = some parts →
      a.handsImage imageDir (sitesOf parts extraPartition) m.files = true → m.record.Settled slot) :
    (flashWrite a imageDir partition extraPartition m).2.Safe Release := by
  have hrecord := record_flashWrite (a := a) (m := m) imageDir partition extraPartition
  refine ⟨hrecord ▸ h.valid, ?_⟩
  rcases flashWrite_cases (a := a) imageDir partition extraPartition m with
    heq | ⟨slot, parts, hread, hselects, hparts, heq⟩
  · rw [heq]
    exact h.standing
  cases hhands : a.handsImage imageDir (sitesOf parts extraPartition) m.files with
  | true =>
    have ht := hsettled slot parts hread hselects hparts hhands
    exact .inr ⟨slot, hrecord ▸ ht, holds_flashWrite hselects (h.holds_of_settled ht)⟩
  | false =>
    have hdevs : (flashWrite a imageDir partition extraPartition m).2.devs = m.devs := by
      rw [heq]
      exact (flashWriteImages_frame (sitesOf parts extraPartition)
        (m.log (.flashRead miscPath metaDataOffset 32))).2 hhands
    have hkeeps : ∀ s, m.Holds Release s → (flashWrite a imageDir partition extraPartition m).2.Holds Release s :=
      fun s hs => hs.congr fun part => by rw [hdevs]
    rcases h.standing with hboth | ⟨t, ht, hs⟩
    · exact .inl fun s => hkeeps s (hboth s)
    · exact .inr ⟨t, hrecord ▸ ht, hkeeps t hs⟩

theorem safe_miscUpdate (h : m.Safe Release) (hatomic : a.activity.Atomic)
    (hsettled : a.Copies args m → ∀ slot, m.record.Selects slot → m.record.Settled slot)
    (hcomplete : ∀ tarPath parts slot, a.Writes args m tarPath parts slot →
      m.record.Settled slot ∧ a.Completes Release args m tarPath parts slot) :
    (args.run host a m).2.Safe Release := by
  cases htar : args.tarPath with
  | none =>
    have hrun : args.run host a m = (-1, m) := by simp [UpdateArgs.run, miscUpdate, htar]
    rwa [hrun]
  | some tarPath =>
    have hafter : (a.afterTar args tarPath m).Safe Release := ⟨h.valid, h.standing⟩
    rw [UpdateArgs.run_eq htar]
    by_cases hstatus : (a.system (args.unpackCmd tarPath) m.files).1 = 0
    swap
    · rwa [if_pos hstatus]
    rw [if_neg (not_not_intro hstatus)]
    have hwritten : (flashWrite a (saveDirectory args.saveDir) (args.updatePartition.getD "all")
        args.extraPartition (a.afterTar args tarPath m)).2.Safe Release := by
      refine safe_flashWrite hafter fun slot parts hread hselects hparts hhands => ?_
      exact hsettled ⟨tarPath, htar, hstatus, hread, ⟨slot, hselects⟩, parts, hparts, hhands⟩ slot hselects
    by_cases hret : (flashWrite a (saveDirectory args.saveDir) (args.updatePartition.getD "all")
        args.extraPartition (a.afterTar args tarPath m)).1 = 0
    swap
    · simpa only [ne_eq, hret, not_false_eq_true, ↓reduceIte] using hwritten
    -- now both slots hold a release, and the record may select either
    have hboth : ∀ s, (flashWrite a (saveDirectory args.saveDir) (args.updatePartition.getD "all")
        args.extraPartition (a.afterTar args tarPath m)).2.Holds Release s := by
      rcases flashWrite_cases (a := a) (saveDirectory args.saveDir) (args.updatePartition.getD "all")
        args.extraPartition (a.afterTar args tarPath m) with heq | ⟨slot, parts, -, hselects, hparts, -⟩
      · rw [heq] at hret
        exact absurd hret (by simp)
      have hwrites : a.Writes args m tarPath parts slot := ⟨htar, hstatus, hselects, hparts, hret⟩
      obtain ⟨ht, hcompletes⟩ := hcomplete tarPath parts slot hwrites
      intro s
      rcases Slot.eq_or_eq_other slot s with rfl | rfl
      · exact holds_flashWrite hselects (hafter.holds_of_settled ht)
      · exact holds_other_flashWrite hwrites hcompletes
    have hswitched : (setSlotActivity host a.activity (flashWrite a (saveDirectory args.saveDir)
        (args.updatePartition.getD "all") args.extraPartition (a.afterTar args tarPath m)).2).2.Safe Release :=
      safe_setSlotActivity hwritten hatomic hboth
    simp only [ne_eq, hret, not_true_eq_false, ↓reduceIte]
    split
    · exact hswitched
    · exact hswitched

end

theorem LifeStep.safe (hstep : LifeStep Release host m m') (h : m.Safe Release) : m'.Safe Release := by
  cases hstep with
  | files => exact ⟨h.valid, h.standing⟩
  | boot => exact ⟨(safe_boot h).valid, (safe_boot h).standing⟩
  | packet g ctrl a p hsettled hcomplete => exact safe_packet h hsettled hcomplete
  | setSlotSucceed build a hatomic hbuild => exact safe_setSlotSucceed h hatomic hbuild
  | activeCurrentSlot g a hdriver hmark => exact safe_activeCurrentSlot h hdriver hmark
  | activeAnotherSlot g a hboth => exact safe_activeAnotherSlot h hboth
  | setSlotActivity a hatomic hboth => exact safe_setSlotActivity h hatomic hboth
  | miscUpdate args a hatomic hsettled hcomplete => exact safe_miscUpdate h hatomic hsettled hcomplete

/-- The slot a safe device starts holds a release. -/
theorem Machine.Safe.starts (h : m.Safe Release) : ∃ t, m.record.Selects t ∧ m.Holds Release t := by
  rcases h.standing with hboth | ⟨t, ht, hholds⟩
  · obtain ⟨s, hlast⟩ := h.valid.lastBoot
    obtain ⟨t, hselects⟩ := AbData.exists_selects hlast
    exact ⟨t, hselects, hboth t⟩
  · exact ⟨t, ht.selects, hholds⟩

/-- Whatever a device goes through, updates that fail or lose power among it, the slot it
starts next holds a release. -/
theorem device_life_safe (h : m.Safe Release)
    (hrun : Relation.ReflTransGen (LifeStep Release host) m m') :
    ∃ t, m'.record.Selects t ∧ m'.Holds Release t := by
  have hsafe : m'.Safe Release := by
    induction hrun with
    | refl => exact h
    | tail _ hstep ih => exact hstep.safe ih
  exact hsafe.starts

end

/-- The slot an update starts from goes on being started after it failed exactly when it was
settled: nothing in the update checks this. -/
theorem interrupted_packet_starts_iff {host : Endian} {m : Machine} {g : FlashCtrl}
    {ctrl : Upgrade.UpgradeCtrl} {a : Upgrade.PacketAnswers} {p : Option String} {slot : Slot}
    (hfails : (Upgrade.packet g host ctrl a p m).1 < 0) :
    (∀ n, (Machine.boot^[n] (Upgrade.packet g host ctrl a p m).2).record.Selects slot) ↔
      m.record.Settled slot := by
  have hrecord : (Upgrade.packet g host ctrl a p m).2.record = m.record := by
    rw [Machine.record, (Upgrade.packet_keeps_boot_decision g host ctrl a m p).1 hfails, Machine.record]
  simp only [Machine.record_iterate_boot, hrecord, AbData.Settled]

/-! ## A device -/

/-- Two releases, with the same image for each partition. -/
def twoReleases (imgs : Part → Bytes) : Prop := (∀ p, imgs p = [0xFF]) ∨ ∀ p, imgs p = [1]

/-- An update of all partitions to the second release, in which erasing fails. -/
def interruptedUpdate : Upgrade.PacketAnswers :=
  { Upgrade.PacketAnswers.faultless Upgrade.userdataCtrl.tempDir (fun _ => some [1]) with
    image := fun _ => { Upgrade.ImageAnswers.faultless with block := fun _ => ⟨2 ^ 31, -1, .stored⟩ } }

theorem safe_deviceOn : (deviceOn .a).Safe twoReleases := by
  have hvalid : (deviceOn .a).record.Valid := by
    refine ⟨fun s => ?_, fun s => ?_, .a, ?_⟩
    · cases s <;> decide +kernel
    · cases s <;> decide +kernel
    · decide +kernel
  refine ⟨hvalid, .inl fun s => ⟨fun _ => [0xFF], .inl fun _ => rfl, fun part => ?_⟩⟩
  cases s <;> cases part <;> decide +kernel

theorem settled_deviceOn : (deviceOn .a).record.Settled .a :=
  AbData.settled_iff.mpr ⟨by decide +kernel, .inl ⟨by decide +kernel, by decide +kernel⟩⟩

theorem device_life_safe_deviceOn :
    ∃ t, (Upgrade.packet Upgrade.smallFlash .little Upgrade.userdataCtrl interruptedUpdate
        (some "/userdata/update.tar") (deviceOn .a)).2.boot.record.Selects t ∧
      (Upgrade.packet Upgrade.smallFlash .little Upgrade.userdataCtrl interruptedUpdate
        (some "/userdata/update.tar") (deviceOn .a)).2.boot.Holds twoReleases t := by
  have hfails : (Upgrade.packet Upgrade.smallFlash .little Upgrade.userdataCtrl interruptedUpdate
      (some "/userdata/update.tar") (deviceOn .a)).1 < 0 := by decide +kernel
  have hslot : AbMeta.getRunningSlot interruptedUpdate.cmdline (deviceOn .a) = some .a := by
    decide +kernel
  have hupdate : LifeStep twoReleases .little (deviceOn .a) (Upgrade.packet Upgrade.smallFlash .little
      Upgrade.userdataCtrl interruptedUpdate (some "/userdata/update.tar") (deviceOn .a)).2 := by
    refine .packet _ _ _ _ (fun slot hstarts => ?_) fun q slot hp hreports => ?_
    · obtain rfl := Option.some.inj (hslot.symm.trans hstarts.cmdline)
      exact settled_deviceOn
    · obtain rfl := Option.some.inj hp
      exact absurd (Upgrade.packet_reports .little hreports).1 (Int.not_le.mpr hfails)
  exact device_life_safe safe_deviceOn
    (.tail (.single hupdate) (.boot (deviceOn .a).cmdline))

end LinuxOta
