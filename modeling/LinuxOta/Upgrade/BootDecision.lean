-- SUMMARY: What `rk_upgrade_packet` does to the boot decision: the misc partition, and the record a reported success leaves there.
import LinuxOta.Upgrade.Packet

namespace LinuxOta.Upgrade

/-! # The boot decision -/

variable (g : FlashCtrl) (host : Endian) (ctrl : UpgradeCtrl) (a : PacketAnswers) (m : Machine)

/-- A failed call leaves the misc partition alone. In every call the erases and writes
are those of images, all on the partitions of the slot that does not run, and after them
at most one write of the record. -/
theorem packet_keeps_boot_decision (p : Option String) :
    ((packet g host ctrl a p m).1 < 0 → (packet g host ctrl a p m).2.devs miscPath = m.devs miscPath) ∧
    ∃ evs images record, (packet g host ctrl a p m).2.journal = m.journal ++ evs ∧
      evs.filter Event.modifies = images ++ record ∧
      (∀ e ∈ images, ∃ slot q, AbMeta.getRunningSlot a.cmdline m = some slot ∧
        e.target = some (destPath q slot.other)) ∧
      (record = [] ∨ ∃ d : AbData, record = [.flashWrite miscPath metaDataOffset d.toBytes]) := by
  obtain ⟨ret, acts, devs, hrun, hret, hperf, hdevs⟩ :=
    packet_run g host ctrl a m p
  obtain ⟨evs, hevs, hfilter⟩ := hperf.modifies
  rw [hret, hdevs]
  constructor
  · intro hneg
    rcases hrun.reports_or_not with ⟨p, slot, images, devs', -, -, hnonneg, -⟩ | ⟨-, -, hmisc, -⟩
    · exact absurd hnonneg (Int.not_le.mpr hneg)
    · exact hmisc
  · have htarget : ∀ {slot files ret₀ ret acts devs},
        ImagesRun g a.image ctrl.tempDir slot files partNames ret₀ m.devs acts ret devs →
        acts.filter Event.modifies = acts := by
      intro slot files ret₀ ret acts devs himages
      refine List.filter_eq_self.mpr fun e he => ?_
      obtain ⟨q, hq⟩ := himages.target_of_mem he
      simp [Event.modifies, hq]
    have hrecord : ∀ d : Option AbData, (handedActs d).filter Event.modifies = [] ∨
        ∃ d' : AbData, (handedActs d).filter Event.modifies =
          [.flashWrite miscPath metaDataOffset d'.toBytes] := by
      intro d
      cases d with
      | none => exact .inl rfl
      | some d => exact .inr ⟨d, rfl⟩
    cases hrun with
    | refused h => exact ⟨evs, [], [], hevs, by simpa using hfilter, by simp, .inl rfl⟩
    | notUnpacked hstarts hstatus =>
      exact ⟨evs, [], [], hevs, by simpa using hfilter, by simp, .inl rfl⟩
    | @imageFailed p slot acts ret devs hstarts hstatus himages hneg =>
      refine ⟨evs, acts, [], hevs, ?_, ?_, .inl rfl⟩
      · simpa [htarget himages] using hfilter
      · intro e he
        obtain ⟨q, hq⟩ := himages.target_of_mem he
        exact ⟨slot, q, hstarts.cmdline, hq⟩
    | @finished p slot acts ret devs hstarts hstatus himages hnonneg =>
      refine ⟨evs, acts, (handedActs (a.activate.switched g m)).filter Event.modifies, hevs,
        ?_, ?_, hrecord _⟩
      · simpa [htarget himages] using hfilter
      · intro e he
        obtain ⟨q, hq⟩ := himages.target_of_mem he
        exact ⟨slot, q, hstarts.cmdline, hq⟩

/-! ## Success

A call that reports success has ordered the switch, but does not look at what came of
it. -/

/-- If the call returns a non-negative value or publishes success, the record now on
misc selects the slot that did not run. -/
def HonestSuccess (p : Option String) : Prop :=
  (0 ≤ (packet g host ctrl a p m).1 ∨
    ∃ result, m.Issued (packet g host ctrl a p m).2 (.publish .resultSuccess result)) →
  ∃ slot, AbMeta.getRunningSlot a.cmdline m = some slot ∧
    (packet g host ctrl a p m).2.record.Selects slot.other

/-- The bytes of the record up to the last one the choice of slot `s` depends on after a
switch to it. -/
def decisiveBytes : Slot → Nat
  | .a => 13
  | .b => 14

/-- The switch from slot `slot` goes through: the record is read, the command line names
the same slot again, and the decisive bytes of the new record reach the misc partition. -/
structure PacketAnswers.Switches (slot : Slot) : Prop where
  openRead : g.Opens a.activate.openRead
  read : a.activate.read ≠ .failed
  cmdline : AbMeta.getRunningSlot a.activate.cmdline m = some slot
  openWrite : g.Opens a.activate.openWrite
  write : decisiveBytes slot.other ≤ a.activate.write.reached 32

variable {g host ctrl a m}

/-- Enough of a switched record selects the slot switched to. -/
theorem switched_partial_selects {misc : Content} {d : AbData} {current : Slot} {n : Nat}
    (hn : decisiveBytes current.other ≤ n) :
    (recordAt (misc.overwrite metaDataOffset ((AbMeta.switchedRecord d current).toBytes.take n))).Selects
      current.other := by
  obtain ⟨ha, hta, -, hb, htb, -, -⟩ := recordAt_partial misc (AbMeta.switchedRecord d current) n
  generalize recordAt (misc.overwrite metaDataOffset ((AbMeta.switchedRecord d current).toBytes.take n)) = r
    at *
  cases current with
  | a =>
    simp only [decisiveBytes, Slot.other] at hn
    rw [if_pos (by omega)] at ha hb htb
    have hlow : r.slotA.priority = maxPriority - 1 := ha
    have htries : r.slotB.triesRemaining = maxTriesRemaining := htb
    apply AbData.selects_of_lower
    · exact hb
    · simp only [Slot.other, AbData.slots, hlow]
      decide
    · simp only [Slot.other, AbData.slots, htries]
      decide
  | b =>
    simp only [decisiveBytes, Slot.other] at hn
    rw [if_pos (by omega)] at ha hb hta
    have hlow : r.slotB.priority = maxPriority - 1 := hb
    have htries : r.slotA.triesRemaining = maxTriesRemaining := hta
    apply AbData.selects_of_lower
    · exact ha
    · simp only [Slot.other, AbData.slots, hlow]
      decide
    · simp only [Slot.other, AbData.slots, htries]
      decide

/-- A record that goes on selecting `slot` unless a switch goes through. -/
def holdRecord (slot : Slot) : AbData where
  magic := abMagic
  versionMajor := 1
  versionMinor := 0
  reserved1 := .replicate 2 0
  slotA := if slot = .a then ⟨maxPriority, maxTriesRemaining, 0, 0⟩ else ⟨0, 0, 0, 0⟩
  slotB := if slot = .b then ⟨255, maxTriesRemaining, 0, 0⟩ else ⟨0, 0, 0, 0⟩
  lastBoot := slot.index
  reserved2 := .replicate 11 0
  crc32 := .replicate 4 0

theorem holdRecord_holds {misc : Content} {d : AbData} {slot : Slot} {n : Nat}
    (hmisc : recordAt misc = holdRecord slot) (hn : n < decisiveBytes slot.other) :
    ¬ (recordAt (misc.overwrite metaDataOffset ((AbMeta.switchedRecord d slot).toBytes.take n))).Selects
      slot.other := by
  obtain ⟨ha, -, -, hb, htb, hsb, hl⟩ := recordAt_partial misc (AbMeta.switchedRecord d slot) n
  rw [hmisc] at ha hb htb hsb hl
  generalize recordAt (misc.overwrite metaDataOffset ((AbMeta.switchedRecord d slot).toBytes.take n)) = r at *
  intro hselects
  rw [AbData.selects_iff] at hselects
  cases slot with
  | a =>
    -- slot `b` gets no tries, and `last_boot` stays 0
    simp only [decisiveBytes, Slot.other] at hn
    rw [if_neg (by omega)] at htb hsb hl
    have hnot : ¬ r.Bootable .b := by
      rintro ⟨-, hboot | htries⟩
      · exact absurd (Nat.lt_of_lt_of_eq hboot (congrArg UInt8.toNat hsb)) (by decide)
      · exact absurd (Nat.lt_of_lt_of_eq htries (congrArg UInt8.toNat htb)) (by decide)
    rcases hselects with ⟨hboot, -⟩ | ⟨-, -, hlast⟩
    · exact hnot hboot
    · exact absurd (hlast.symm.trans hl) (by decide)
  | b =>
    -- slot `b` keeps its priority, which no slot has after a switch
    simp only [decisiveBytes, Slot.other] at hn
    rw [if_neg (by omega)] at hb htb
    have hbootb : r.Bootable .b := by
      refine ⟨?_, .inr ?_⟩
      · exact Nat.lt_of_lt_of_eq (by decide : (0 : UInt8).toNat < 255) (congrArg UInt8.toNat hb).symm
      · exact Nat.lt_of_lt_of_eq (by decide : (0 : UInt8).toNat < 7) (congrArg UInt8.toNat htb).symm
    have hb' : r.slotB.priority = 255 := hb
    have ha' : r.slotA.priority = maxPriority ∨ r.slotA.priority = 0 := by
      rw [ha]
      split
      · exact .inl rfl
      · exact .inr rfl
    rcases hselects with ⟨-, houtranks⟩ | ⟨-, hnot, -⟩
    · have hrank := houtranks hbootb
      simp only [AbData.Outranks, Slot.other, AbData.slots, hb'] at hrank
      rcases ha' with ha' | ha' <;> rw [ha'] at hrank <;> revert hrank <;> decide
    · exact hnot hbootb

/-- A switch taken for the wrong direction leaves `slot` selected as well. -/
theorem holdRecord_selects {misc : Content} {d : AbData} {slot : Slot} {n : Nat}
    (hmisc : recordAt misc = holdRecord slot) :
    (recordAt (misc.overwrite metaDataOffset
      ((AbMeta.switchedRecord d slot.other).toBytes.take n))).Selects slot := by
  obtain ⟨ha, hta, -, hb, htb, -, -⟩ := recordAt_partial misc (AbMeta.switchedRecord d slot.other) n
  rw [hmisc] at ha hta hb htb
  generalize recordAt (misc.overwrite metaDataOffset
    ((AbMeta.switchedRecord d slot.other).toBytes.take n)) = r at *
  cases slot with
  | a =>
    have ha' : r.slotA.priority = maxPriority := by rw [ha]; split <;> rfl
    have hta' : r.slotA.triesRemaining = maxTriesRemaining := by rw [hta]; split <;> rfl
    have hb' : r.slotB.priority = maxPriority - 1 ∨ r.slotB.priority = 0 := by
      rw [hb]
      split
      · exact .inl rfl
      · exact .inr rfl
    apply AbData.selects_of_lower
    · exact ha'
    · simp only [Slot.other, AbData.slots]
      rcases hb' with hb' | hb' <;> rw [hb'] <;> decide
    · simp only [AbData.slots, hta']
      decide
  | b =>
    have hb' : r.slotB.priority = maxPriority ∨ r.slotB.priority = 255 := by
      rw [hb]
      split
      · exact .inl rfl
      · exact .inr rfl
    have htb' : r.slotB.triesRemaining = maxTriesRemaining := by rw [htb]; split <;> rfl
    have ha' : r.slotA.priority = maxPriority - 1 ∨ r.slotA.priority = 0 := by
      rw [ha]
      split
      · exact .inl rfl
      · exact .inr rfl
    rw [AbData.selects_iff]
    refine .inl ⟨⟨?_, .inr ?_⟩, fun _ => .inl ?_⟩
    · simp only [AbData.slots]
      rcases hb' with hb' | hb' <;> rw [hb'] <;> decide
    · simp only [AbData.slots, htb']
      decide
    · simp only [Slot.other, AbData.slots]
      rcases hb' with hb' | hb' <;> rcases ha' with ha' | ha' <;> rw [hb', ha'] <;> decide

variable (host) in
/-- What a call that reports success returns, and the record it leaves. -/
theorem packet_reports {q : String} {slot : Slot} (h : a.Reports g ctrl m q slot) :
    0 ≤ (packet g host ctrl a (some q) m).1 ∧
    (packet g host ctrl a (some q) m).2.record =
      recordAt (handedMisc a.activate.write.onRecord (m.devs miscPath) (a.activate.switched g m)) := by
  obtain ⟨ret, acts, devs, hrun, hret, -, hdevs⟩ :=
    packet_run g host ctrl a m (some q)
  rcases hrun.reports_or_not with ⟨q', slot', images, devs', -, -, hnonneg, -, -, hmisc⟩ | ⟨hnot, -⟩
  · refine ⟨by rw [hret]; exact hnonneg, ?_⟩
    rw [Machine.record, hdevs, hmisc, Function.update_self]
  · exact absurd h (hnot q slot rfl)

/-- A success the call reports or publishes is one of a call whose steps succeeded. -/
theorem packet_reports_of_success {p : Option String}
    (h : 0 ≤ (packet g host ctrl a p m).1 ∨
      ∃ result, m.Issued (packet g host ctrl a p m).2 (.publish .resultSuccess result)) :
    ∃ q slot, p = some q ∧ a.Reports g ctrl m q slot := by
  obtain ⟨ret, acts, devs, hrun, hret, hperf, -⟩ :=
    packet_run g host ctrl a m p
  rcases hrun.reports_or_not with ⟨q, slot, images, devs', hp, hr, -⟩ | ⟨-, hneg, -, -, hquiet⟩
  · exact ⟨q, slot, hp, hr⟩
  · rcases h with hnonneg | ⟨result, hissued⟩
    · rw [hret] at hnonneg
      exact absurd hnonneg (Int.not_le.mpr hneg)
    · rw [hperf.issued_iff rfl] at hissued
      exact absurd hissued (hquiet result)

/-- A switch that goes through selects the other slot, whatever was on misc before. -/
theorem selects_of_switches {slot : Slot} (h : a.Switches g m slot) :
    (recordAt (handedMisc a.activate.write.onRecord (m.devs miscPath) (a.activate.switched g m))).Selects
      slot.other := by
  rw [AbMeta.MetaAnswers.switched_eq_some_iff.mpr ⟨⟨h.openRead, h.read, h.openWrite⟩, slot, h.cmdline, rfl⟩]
  simp only [handedMisc, WriteAnswer.onRecord, AbData.toBytes_length]
  exact switched_partial_selects h.write

/-- Over the record that holds on to `slot`, nothing less than that selects the other
slot. -/
theorem switches_of_selects {slot : Slot} (hrecord : recordAt (m.devs miscPath) = holdRecord slot)
    (hselects : (recordAt
      (handedMisc a.activate.write.onRecord (m.devs miscPath) (a.activate.switched g m))).Selects slot.other) :
    a.Switches g m slot := by
  cases hswitched : a.activate.switched g m with
  | none =>
    have hhold :=
      holdRecord_holds (d := holdRecord slot) (n := 0) hrecord (by cases slot <;> decide)
    rw [hswitched] at hselects
    exact absurd hselects (by simpa [handedMisc] using hhold)
  | some d =>
    obtain ⟨hopens, current, hcurrent, rfl⟩ := AbMeta.MetaAnswers.switched_eq_some_iff.mp hswitched
    rw [hswitched] at hselects
    simp only [handedMisc, WriteAnswer.onRecord, AbData.toBytes_length] at hselects
    rcases Slot.eq_or_eq_other slot current with rfl | rfl
    · refine ⟨hopens.1, hopens.2.1, hcurrent, hopens.2.2, ?_⟩
      by_contra hfew
      exact holdRecord_holds hrecord (Nat.not_le.mp hfew) hselects
    · -- the second read names the other slot, and the switch is one back to `slot`
      have hstays := holdRecord_selects (d := AbMeta.bufferAfter a.activate.read m)
        (n := a.activate.write.reached 32) hrecord
      exact absurd (hstays.unique hselects) (Slot.other_ne slot)

/-- A reported success is a real switch, whatever was on misc before, exactly when every
step of the switch goes through. -/
theorem packet_honest_iff (p : Option String) :
    (∀ misc, HonestSuccess g host ctrl a (m.withDev miscPath misc) p) ↔
      ∀ q slot, p = some q → a.Reports g ctrl m q slot → a.Switches g m slot := by
  constructor
  · rintro hhonest q slot rfl hreports
    let misc : Content := Content.overwrite (fun _ => 0) metaDataOffset (holdRecord slot).toBytes
    let m' := m.withDev miscPath misc
    have hrecord : recordAt (m'.devs miscPath) = holdRecord slot := by
      rw [Machine.withDev_devs_self]
      exact recordAt_overwrite _ _
    have hreports' : a.Reports g ctrl m' q slot := PacketAnswers.reports_devs_iff.mpr hreports
    obtain ⟨hret, hafter⟩ := packet_reports host hreports'
    obtain ⟨slot', hslot', hselects⟩ := hhonest misc (.inl hret)
    obtain rfl : slot' = slot := Option.some.inj (hslot'.symm.trans hreports.starts.cmdline)
    rw [hafter] at hselects
    have hswitch := switches_of_selects hrecord hselects
    exact ⟨hswitch.openRead, hswitch.read, hswitch.cmdline, hswitch.openWrite, hswitch.write⟩
  · intro hall misc hsuccess
    obtain ⟨q, slot, rfl, hreports⟩ := packet_reports_of_success hsuccess
    have hswitch := hall q slot rfl (PacketAnswers.reports_devs_iff.mp hreports)
    refine ⟨slot, hreports.starts.cmdline, ?_⟩
    rw [(packet_reports host hreports).2]
    exact selects_of_switches
      ⟨hswitch.openRead, hswitch.read, hswitch.cmdline, hswitch.openWrite, hswitch.write⟩

/-- The misc partition can not be opened, and the call reports success with the running
slot still selected. -/
theorem packet_not_honest :
    ¬ ∀ (g : FlashCtrl) (host : Endian) (ctrl : UpgradeCtrl) (a : PacketAnswers) (m : Machine)
        (p : Option String), HonestSuccess g host ctrl a m p := by
  intro h
  let a : PacketAnswers :=
    { PacketAnswers.faultless userdataCtrl.tempDir (fun _ => none) with
      activate := { MetaAnswers.faultless with openRead := -1 } }
  obtain ⟨slot, hslot, hselects⟩ :=
    h smallFlash .little userdataCtrl a (deviceOn .a) (some "/userdata/update.tar") (.inl (by decide))
  obtain rfl : Slot.a = slot := Option.some.inj ((by decide :
    AbMeta.getRunningSlot a.cmdline (deviceOn .a) = some Slot.a).symm.trans hslot)
  exact absurd hselects (by decide)

end LinuxOta.Upgrade
