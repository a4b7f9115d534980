-- SUMMARY: On both update paths, the slot that is flashed is the slot the record then selects.
import LinuxOta.Ota.MiscUpdate
import LinuxOta.Upgrade.Packet

namespace LinuxOta

/-! # The flashed slot

The name of a partition and the record are computed from the running slot apart from
each other. -/

section
open Upgrade

variable {g : FlashCtrl} {host : Endian} {ctrl : UpgradeCtrl} {a : PacketAnswers} {m : Machine}

/-- The same text read twice names the same slot. -/
theorem getRunningSlot_congr {answer answer' : CmdlineAnswer} {s s' : Slot}
    (htext : AbMeta.cmdlineBuffer m.cmdline answer' = AbMeta.cmdlineBuffer m.cmdline answer)
    (h : AbMeta.getRunningSlot answer m = some s) (h' : AbMeta.getRunningSlot answer' m = some s') :
    s' = s := by
  have hopen := (AbMeta.getRunningSlot_eq_some_iff.mp h).1
  have hopen' := (AbMeta.getRunningSlot_eq_some_iff.mp h').1
  simp only [AbMeta.getRunningSlot, hopen, hopen', htext, Bool.not_true, Bool.false_eq_true,
    ↓reduceIte] at h h'
  exact Option.some.inj (h'.symm.trans h)

/-- A call of `rk_upgrade_packet` that stores a record flashes and selects the slot that
does not run. -/
theorem packet_flashes_selected {p : Option String} {data : Bytes}
    (htext : AbMeta.cmdlineBuffer m.cmdline a.activate.cmdline = AbMeta.cmdlineBuffer m.cmdline a.cmdline)
    (hwrite : a.activate.write = .stored)
    (hissued : m.Issued (packet g host ctrl a p m).2 (.flashWrite miscPath metaDataOffset data)) :
    ∃ running, AbMeta.getRunningSlot a.cmdline m = some running ∧
      (packet g host ctrl a p m).2.record.Selects running.other ∧
      ∀ e path, m.Issued (packet g host ctrl a p m).2 e → e.target = some path → path ≠ miscPath →
        ∃ part, path = destPath part running.other := by
  obtain ⟨ret, acts, devs, hrun, -, hperf, hdevs⟩ :=
    packet_run g host ctrl a m p
  have htarget : ∀ {running e path}, AbMeta.getRunningSlot a.cmdline m = some running →
      m.Issued (packet g host ctrl a p m).2 e → e.target = some path → path ≠ miscPath →
      ∃ part, path = destPath part running.other := by
    intro running e path hrunning hissued hpath hne
    have hmem := (hperf.issued_iff (Event.acts_of_target hpath)).mp hissued
    rcases hrun.mem_acts_cases hmem (by simp [Event.modifies, hpath]) with
      ⟨q, slot, images, ret', devs', -, hstarts, -, hmem, himages⟩ | ⟨q, slot, -, -, hmem⟩
    · obtain rfl : slot = running := Option.some.inj (hstarts.cmdline.symm.trans hrunning)
      obtain ⟨part, hpart⟩ := himages.target_of_mem hmem
      exact ⟨part, Option.some.inj (hpath.symm.trans hpart)⟩
    · cases hswitched : a.activate.switched g m with
      | none => simp [hswitched, handedActs] at hmem
      | some d =>
        obtain rfl : e = .flashWrite miscPath metaDataOffset d.toBytes := by
          simpa [hswitched, handedActs] using hmem
        exact absurd (Option.some.inj hpath).symm hne
  have hmem := (hperf.issued_iff rfl).mp hissued
  rcases hrun.mem_acts_cases hmem rfl with
    ⟨q, slot, images, ret', devs', -, -, -, hmem', himages⟩ | ⟨q, slot, rfl, hreports, hmem'⟩
  · obtain ⟨part, hpart⟩ := himages.target_of_mem hmem'
    exact absurd (Option.some.inj hpart) (miscPath_ne_destPath slot.other part)
  · have hrunning := hreports.starts.cmdline
    refine ⟨slot, hrunning, ?_, fun e path => htarget hrunning⟩
    cases hswitched : a.activate.switched g m with
    | none => simp [hswitched, handedActs] at hmem'
    | some d =>
      obtain ⟨-, current, hcurrent, rfl⟩ := AbMeta.MetaAnswers.switched_eq_some_iff.mp hswitched
      obtain rfl := getRunningSlot_congr htext hrunning hcurrent
      rcases hrun.reports_or_not with ⟨q', slot', images, devs', -, -, -, -, -, hmisc⟩ | ⟨hnot, -⟩
      · have hrecord : (packet g host ctrl a (some q) m).2.record =
            AbMeta.switchedRecord (AbMeta.bufferAfter a.activate.read m) current := by
          rw [Machine.record, hdevs, hmisc, Function.update_self, hswitched, hwrite,
            recordAt_handedMisc_stored]
        rw [hrecord]
        exact AbMeta.switchedRecord_selects _ _
      · exact absurd hreports (hnot q current rfl)

end

/-- On both paths the partitions written carry the suffix of the slot the stored record
selects. On the new path that slot is not the running one. -/
theorem flashed_slot_selected (g : FlashCtrl) (host : Endian) (ctrl : Upgrade.UpgradeCtrl)
    (m : Machine) : (∀ (a : Upgrade.PacketAnswers) (p : Option String) (data : Bytes),
      AbMeta.cmdlineBuffer m.cmdline a.activate.cmdline = AbMeta.cmdlineBuffer m.cmdline a.cmdline →
      a.activate.write = .stored →
      m.Issued (Upgrade.packet g host ctrl a p m).2 (.flashWrite miscPath metaDataOffset data) →
      ∃ running flashed, AbMeta.getRunningSlot a.cmdline m = some running ∧ flashed ≠ running ∧
        (Upgrade.packet g host ctrl a p m).2.record.Selects flashed ∧
        ∀ e path, m.Issued (Upgrade.packet g host ctrl a p m).2 e → e.target = some path →
          path ≠ miscPath → ∀ s, CarriesSuffix path s ↔ s = flashed) ∧
    (∀ (args : Bootloader.UpdateArgs) (a : Bootloader.MiscUpdateAnswers),
      (args.run host a m).1 = 0 →
      ∃ flashed, (args.run host a m).2.record.Selects flashed ∧
        ∀ src dest, m.Issued (args.run host a m).2 (.copyImage src dest) →
          ∀ s, CarriesSuffix dest s ↔ s = flashed) := by
  constructor
  · intro a p data htext hwrite hissued
    obtain ⟨running, hrunning, hselects, htargets⟩ := packet_flashes_selected htext hwrite hissued
    refine ⟨running, running.other, hrunning, running.other_ne, hselects, ?_⟩
    intro e path he hpath hne s
    obtain ⟨part, rfl⟩ := htargets e path he hpath hne
    rw [carriesSuffix_destPath_iff]
    exact eq_comm
  · intro args a hret
    obtain ⟨slot, pre, images, d, hperf, hpre, himages, -, -, hok⟩ :=
      Bootloader.miscUpdate_run host (a := a) (m := m) args
    obtain ⟨-, hrecord⟩ := hok hret
    refine ⟨slot.other, ?_, ?_⟩
    · rw [hrecord, AbData.selects_congr (AbData.slots_refreshCrc _) (AbData.lastBoot_refreshCrc _)]
      exact AbData.switchFrom_selects _ _
    · intro src dest hissued s
      have hmem := (hperf.issued_iff rfl).mp hissued
      rcases List.mem_append.mp hmem with hmem | hmem
      · rcases List.mem_append.mp hmem with hmem | hmem
        · obtain ⟨cmd, hcmd⟩ := hpre _ hmem
          cases hcmd
        · obtain ⟨src', site, heq⟩ := himages _ hmem
          cases heq
          rw [site.carriesSuffix_iff]
          exact eq_comm
      · exact absurd hmem (Bootloader.copyImage_not_mem_handedActs d)

theorem flashed_slot_selected_deviceOn :
    (∃ flashed, flashed ≠ .a ∧
      (Upgrade.packet Upgrade.smallFlash .little Upgrade.userdataCtrl
        (Upgrade.PacketAnswers.faultless "/userdata/temp" fun _ => some [1])
        (some "/userdata/update.tar") (deviceOn .a)).2.record.Selects flashed) ∧
    ∃ flashed,
      (Bootloader.bootUpdateArgs.run .little Bootloader.bootUpdateAnswers (deviceOn .a)).2.record.Selects
        flashed := by
  obtain ⟨hnew, hold⟩ :=
    flashed_slot_selected Upgrade.smallFlash .little Upgrade.userdataCtrl (deviceOn .a)
  constructor
  · obtain ⟨running, flashed, hrunning, hne, hselects, -⟩ :=
      hnew (Upgrade.PacketAnswers.faultless "/userdata/temp" fun _ => some [1])
        (some "/userdata/update.tar") (AbMeta.switchedRecord (deviceOn .a).record .a).toBytes rfl rfl
        ⟨_, (List.nil_append _).symm, by decide +kernel⟩
    have ha : AbMeta.getRunningSlot ⟨true, 511⟩ (deviceOn .a) = some .a := by decide
    obtain rfl : running = .a := Option.some.inj (hrunning.symm.trans ha)
    exact ⟨flashed, hne, hselects⟩
  · obtain ⟨flashed, hselects, -⟩ :=
      hold Bootloader.bootUpdateArgs Bootloader.bootUpdateAnswers (by decide +kernel)
    exact ⟨flashed, hselects⟩

end LinuxOta
