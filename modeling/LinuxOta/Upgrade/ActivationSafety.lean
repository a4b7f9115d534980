-- SUMMARY: When the order to boot the other slot is given only after every image was unpacked and copied to it.
import LinuxOta.Upgrade.Packet

namespace LinuxOta.Upgrade

/-! # Activation safety -/

variable (g : FlashCtrl) (host : Endian) (ctrl : UpgradeCtrl) (a : PacketAnswers) (m : Machine)

/-- If the call gets to the switch, `tar` exited with status 0 and the partitions of the
other slot start with the images that were there after unpacking. -/
def ActivationSafe (p : Option String) : Prop :=
  m.Issued (packet g host ctrl a p m).2 .activateAnotherSlot →
  ∃ q slot, p = some q ∧ AbMeta.getRunningSlot a.cmdline m = some slot ∧ a.status ctrl m q = 0 ∧
    ∀ part img, imageFile ctrl.tempDir (a.unpacked ctrl m q) part = some img →
      ((packet g host ctrl a p m).2.devs (destPath part slot.other)).read 0 img.length = img

/-- The image is empty, or it was found, and each block of it was read and stored whole. -/
def ImageAnswers.Delivers (b : ImageAnswers) (g : FlashCtrl) (img : Bytes) : Prop :=
  img = [] ∨ (b.access = true ∧ b.fopen = true ∧ (b.copy g img).Whole)

variable {g host ctrl a m}

/-- A call that gets to the switch reports success, and the other way round. -/
theorem activates_iff {p : Option String} :
    m.Issued (packet g host ctrl a p m).2 .activateAnotherSlot ↔
      ∃ q slot, p = some q ∧ a.Reports g ctrl m q slot := by
  obtain ⟨ret, acts, devs, hrun, -, hperf, -⟩ :=
    packet_run g host ctrl a m p
  rw [hperf.issued_iff rfl]
  rcases hrun.reports_or_not with
    ⟨q, slot, images, devs', rfl, hreports, -, -, rfl, -⟩ | ⟨hnot, -, -, hquiet, -⟩
  · exact iff_of_true (by simp) ⟨q, slot, rfl, hreports⟩
  · refine iff_of_false hquiet ?_
    rintro ⟨q, slot, hp, hreports⟩
    exact hnot q slot hp hreports

variable (host) in
/-- What a call that reports success leaves on the partition of an image. -/
theorem packet_partition {q : String} {slot : Slot} (h : a.Reports g ctrl m q slot) (part : Part) :
    ∃ o, 0 ≤ o.ret ∧
      ImageRun g (a.image part) (srcPath ctrl.tempDir part) (destPath part slot.other)
        (imageFile ctrl.tempDir (a.unpacked ctrl m q) part) o ∧
      (packet g host ctrl a (some q) m).2.devs (destPath part slot.other) =
        o.store (m.devs (destPath part slot.other)) := by
  obtain ⟨ret, acts, devs, hrun, -, -, hdevs⟩ :=
    packet_run g host ctrl a m (some q)
  rcases hrun.reports_or_not with
    ⟨q', slot', images, devs', hq, hreports, hret, himages, -, rfl⟩ | ⟨hnot, -⟩
  · obtain rfl := Option.some.inj hq
    obtain rfl := h.starts.slot_eq hreports.starts
    obtain ⟨o, hnonneg, hstore, hrun⟩ :=
      himages.devs_of_nonneg partNames_nodup hret (mem_partNames part)
    refine ⟨o, hnonneg, hrun, ?_⟩
    rw [hdevs, Function.update_of_ne (destPath_ne_miscPath part slot'.other), hstore]
  · exact absurd h (hnot q slot rfl)

/-- The switch is safe, whatever was on the partitions before, exactly when a call that
notices no failure had `tar` exit with status 0 and every image delivered. -/
theorem packet_activation_safe_iff (p : Option String) :
    (∀ devs, ActivationSafe g host ctrl a { m with devs := devs } p) ↔
      ∀ q slot, p = some q → a.Reports g ctrl m q slot →
        a.status ctrl m q = 0 ∧
        ∀ part img, imageFile ctrl.tempDir (a.unpacked ctrl m q) part = some img →
          (a.image part).Delivers g img := by
  constructor
  · rintro hsafe q slot rfl hr
    have hall : ∀ devs, a.status ctrl m q = 0 ∧
        ∀ part img, imageFile ctrl.tempDir (a.unpacked ctrl m q) part = some img →
          ((packet g host ctrl a (some q) { m with devs := devs }).2.devs
            (destPath part slot.other)).read 0 img.length = img := by
      intro devs
      obtain ⟨q', slot', hq, hslot, hstatus, hholds⟩ :=
        hsafe devs (activates_iff.mpr ⟨q, slot, rfl, PacketAnswers.reports_devs_iff.mpr hr⟩)
      obtain rfl := Option.some.inj hq
      obtain rfl : slot' = slot := Option.some.inj (hslot.symm.trans hr.starts.cmdline)
      exact ⟨hstatus, hholds⟩
    refine ⟨(hall m.devs).1, fun part img himg => ?_⟩
    obtain ⟨o, hret, hrun, -⟩ := packet_partition host hr part
    rw [himg] at hrun
    refine (hrun.holds_iff hret).mp fun d => ?_
    -- a device with content `d` on every partition
    have hd := (hall fun _ => d).2 part img himg
    obtain ⟨o', -, hrun', hstore⟩ :=
      packet_partition (m := { m with devs := fun _ => d }) host (PacketAnswers.reports_devs_iff.mpr hr) part
    have himg' : imageFile ctrl.tempDir (a.unpacked ctrl { m with devs := fun _ => d } q) part =
        some img := himg
    rw [himg'] at hrun'
    obtain rfl := hrun.unique hrun'
    rwa [hstore] at hd
  · intro hall devs hissued
    obtain ⟨q, slot, rfl, hr⟩ := activates_iff.mp hissued
    obtain ⟨hstatus, hdelivers⟩ := hall q slot rfl (PacketAnswers.reports_devs_iff.mp hr)
    refine ⟨q, slot, rfl, hr.starts.cmdline, hstatus, fun part img himg => ?_⟩
    obtain ⟨o, hret, hrun, hstore⟩ := packet_partition host hr part
    rw [himg] at hrun
    rw [hstore]
    exact (hrun.holds_iff hret).mpr (hdelivers part img himg) _

/-- `tar` fails with exit status 1, nothing is flashed, and the other slot is activated. -/
theorem packet_not_activation_safe :
    ¬ ∀ (g : FlashCtrl) (host : Endian) (ctrl : UpgradeCtrl) (a : PacketAnswers) (m : Machine)
        (p : Option String), ActivationSafe g host ctrl a m p := by
  intro h
  let a : PacketAnswers :=
    { PacketAnswers.faultless userdataCtrl.tempDir (fun _ => none) with
      system := fun _ files => (256, files) }
  have hissued : (deviceOn .a).Issued
      (packet smallFlash .little userdataCtrl a (some "/userdata/update.tar") (deviceOn .a)).2
      .activateAnotherSlot :=
    ⟨_, by exact (List.nil_append _).symm, by decide⟩
  obtain ⟨q, slot, -, -, hstatus, -⟩ := h _ _ _ _ _ _ hissued
  have hexit : (256 : Int) = 0 := hstatus
  exact absurd hexit (by decide)

end LinuxOta.Upgrade
