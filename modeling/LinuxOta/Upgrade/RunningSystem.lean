-- SUMMARY: When `rk_upgrade_packet` leaves the running slot alone, on its partitions and in the record.
import LinuxOta.Upgrade.Packet

namespace LinuxOta.Upgrade

/-! # The running system -/

/-- A record is handed to the write that ranks slot `r` above the other one. -/
def RaisesSlot (r : Slot) (e : Event) : Prop :=
  ∃ data, e = .flashWrite miscPath metaDataOffset data ∧
    ((AbData.ofBytes data).slots r.other).priority < ((AbData.ofBytes data).slots r).priority

variable (g : FlashCtrl) (host : Endian) (ctrl : UpgradeCtrl) (a : PacketAnswers) (m : Machine)

/-- No erase or write of the call goes to a partition of slot `r`, and its switch, if
any, is not one from the other slot to `r`. -/
def KeepsRunning (p : Option String) (r : Slot) : Prop :=
  ∀ e, m.Issued (packet g host ctrl a p m).2 e →
    (∀ path, e.target = some path → ¬ CarriesSuffix path r) ∧ ¬ RaisesSlot r e

/-- Reading the command line takes the other slot for the running slot `r`: nothing was
read and `r` is slot `b`, or the first mention in the text that was read names the other
slot. -/
def Mistakes (answer : CmdlineAnswer) (cmdline : List Char) (r : Slot) : Prop :=
  answer.fopen = true ∧
    (AbMeta.cmdlineBuffer cmdline answer = [] ∧ r = .b ∨
      AbMeta.Names (CString.ofBuffer (AbMeta.cmdlineBuffer cmdline answer)) r.other)

/-- The call gets as far as erasing a block for an image. -/
def PacketAnswers.ErasesImage (q : String) : Prop :=
  0 ≤ a.status ctrl m q ∧
    ∃ p, Attempts g a.image ctrl.tempDir (a.unpacked ctrl m q) partNames p ∧
      (a.image p).Erases g (imageFile ctrl.tempDir (a.unpacked ctrl m q) p)

/-- The call gets as far as writing a record, given a slot number. -/
def PacketAnswers.WritesRecord (q : String) : Prop :=
  (∃ slot, a.Reports g ctrl m q slot) ∧
    g.Opens a.activate.openRead ∧ a.activate.read ≠ .failed ∧ g.Opens a.activate.openWrite

variable {g host ctrl a m}

theorem mistakes_iff {answer : CmdlineAnswer} {r : Slot} :
    Mistakes answer m.cmdline r ↔ AbMeta.getRunningSlot answer m = some r.other := by
  have hr : r = .b ↔ r.other = .a := by cases r <;> decide
  rw [AbMeta.getRunningSlot_eq_some_iff, Mistakes, hr]

/-- A switch from slot `current` raises the other one only. -/
theorem raisesSlot_iff {d : AbData} {current r : Slot} :
    RaisesSlot r (.flashWrite miscPath metaDataOffset (AbMeta.switchedRecord d current).toBytes) ↔
      current = r.other := by
  obtain ⟨hcurrent, hother⟩ := d.switchFrom_slots current
  have hc : ((AbMeta.switchedRecord d current).slots current).priority = maxPriority - 1 := by
    simp [AbMeta.switchedRecord, hcurrent]
  have ho : ((AbMeta.switchedRecord d current).slots current.other).priority = maxPriority := by
    simp [AbMeta.switchedRecord, hother]
  have hraises : RaisesSlot r
      (.flashWrite miscPath metaDataOffset (AbMeta.switchedRecord d current).toBytes) ↔
      ((AbMeta.switchedRecord d current).slots r.other).priority <
        ((AbMeta.switchedRecord d current).slots r).priority := by
    constructor
    · rintro ⟨data, heq, hlt⟩
      cases heq
      simpa [AbData.ofBytes_toBytes] using hlt
    · intro hlt
      exact ⟨_, rfl, by simpa [AbData.ofBytes_toBytes] using hlt⟩
  rw [hraises]
  rcases Slot.eq_or_eq_other current r with rfl | rfl
  · rw [hc, ho]
    simp only [Slot.ne_other, iff_false]
    decide
  · rw [Slot.other_other, hc, ho]
    simp only [iff_true]
    decide

/-- What an erase or write has to do with slot `r`. -/
private theorem keepsRunning_iff_acts {p : Option String} {r : Slot} {acts : List Event}
    (hperf : m.Performs (packet g host ctrl a p m).2 acts) :
    KeepsRunning g host ctrl a m p r ↔
      ∀ e ∈ acts, e.modifies = true →
        (∀ path, e.target = some path → ¬ CarriesSuffix path r) ∧ ¬ RaisesSlot r e := by
  have hacts : ∀ e : Event, e.modifies = true → e.acts = true := by
    intro e he
    obtain ⟨path, hpath⟩ := Option.isSome_iff_exists.mp he
    exact Event.acts_of_target hpath
  constructor
  · intro hkeeps e he hmod
    exact hkeeps e ((hperf.issued_iff (hacts e hmod)).mpr he)
  · intro hall e hissued
    by_cases hmod : e.modifies = true
    · exact hall e ((hperf.issued_iff (hacts e hmod)).mp hissued) hmod
    · refine ⟨fun path hpath => ?_, ?_⟩
      · simp [Event.modifies, hpath] at hmod
      · rintro ⟨data, rfl, -⟩
        simp at hmod

/-! ## How the running slot is hit -/

/-- An erase for an image, with the other slot taken for the running one. -/
private theorem exists_erase {p : Option String} {ret : Int} {acts : List Event}
    {devs : String → Content}
    {q : String} {r : Slot} (hrun : PacketRun g ctrl a m p ret acts devs) (hp : p = some q)
    (hstarts : a.Starts ctrl m r.other) (herases : a.ErasesImage g ctrl m q) :
    ∃ e ∈ acts, ∃ path, e.target = some path ∧ CarriesSuffix path r := by
  subst hp
  obtain ⟨hstatus, part, hattempts, herases⟩ := herases
  obtain ⟨images, ret', devs', hsub, himages⟩ := hrun.images_run hstarts hstatus
  obtain ⟨o, hacts, himage⟩ := himages.attempted hattempts
  obtain ⟨e, he⟩ := himage.acts_ne_nil_iff.mpr herases
  have htarget := himage.target_of_mem he
  rw [Slot.other_other] at htarget
  exact ⟨e, hsub e (hacts e he), _, htarget, (carriesSuffix_destPath_iff part r r).mpr rfl⟩

/-- A write of the record, with the other slot taken for the running one. -/
private theorem exists_raise {p : Option String} {ret : Int} {acts : List Event}
    {devs : String → Content}
    {q : String} {r : Slot} (hrun : PacketRun g ctrl a m p ret acts devs) (hp : p = some q)
    (hslot : AbMeta.getRunningSlot a.activate.cmdline m = some r.other)
    (hwrites : a.WritesRecord g ctrl m q) : ∃ e ∈ acts, e.modifies = true ∧ RaisesSlot r e := by
  obtain ⟨⟨slot, hreports⟩, hopens⟩ := hwrites
  have hswitched := AbMeta.MetaAnswers.switched_eq_some_iff.mpr ⟨hopens, r.other, hslot, rfl⟩
  rcases hrun.reports_or_not with ⟨q', slot', images, devs', -, -, -, -, rfl, -⟩ | ⟨hnot, -⟩
  · refine ⟨.flashWrite miscPath metaDataOffset
      (AbMeta.switchedRecord (AbMeta.bufferAfter a.activate.read m) r.other).toBytes, ?_, rfl, ?_⟩
    · simp [hswitched, handedActs]
    · exact raisesSlot_iff.mpr rfl
  · exact absurd hreports (hnot q slot hp)

/-- An erase or write that hits slot `r` is one of these two. -/
private theorem of_hit {p : Option String} {ret : Int} {acts : List Event} {devs : String → Content}
    {e : Event} {r : Slot} (hrun : PacketRun g ctrl a m p ret acts devs) (he : e ∈ acts)
    (hmod : e.modifies = true)
    (hhit : (∃ path, e.target = some path ∧ CarriesSuffix path r) ∨ RaisesSlot r e) :
    ∃ q slot, p = some q ∧ a.Starts ctrl m slot ∧
      (Mistakes a.cmdline m.cmdline r ∧ a.ErasesImage g ctrl m q ∨
        Mistakes a.activate.cmdline m.cmdline r ∧ a.WritesRecord g ctrl m q) := by
  rcases hrun.mem_acts_cases he hmod with
    ⟨q, slot, images, ret', devs', rfl, hstarts, hstatus, hmem, himages⟩ | ⟨q, slot, rfl, hreports, hmem⟩
  · refine ⟨q, slot, rfl, hstarts, .inl ?_⟩
    obtain ⟨part, o, hattempts, heo, himage⟩ := himages.mem_acts hmem
    have htarget := himage.target_of_mem heo
    rcases hhit with ⟨path, hpath, hcarries⟩ | ⟨data, rfl, -⟩
    · obtain rfl := Option.some.inj (htarget.symm.trans hpath)
      obtain rfl := (carriesSuffix_destPath_iff part slot.other r).mp hcarries
      refine ⟨?_, hstatus, part, hattempts, himage.acts_ne_nil_iff.mp ⟨e, heo⟩⟩
      rw [mistakes_iff, Slot.other_other]
      exact hstarts.cmdline
    · exact absurd (Option.some.inj htarget).symm (destPath_ne_miscPath part slot.other)
  · refine ⟨q, slot, rfl, hreports.starts, .inr ?_⟩
    cases hswitched : a.activate.switched g m with
    | none => simp [hswitched, handedActs] at hmem
    | some d =>
      obtain rfl : e = .flashWrite miscPath metaDataOffset d.toBytes := by
        simpa [hswitched, handedActs] using hmem
      obtain ⟨hopens, current, hcurrent, rfl⟩ :=
        AbMeta.MetaAnswers.switched_eq_some_iff.mp hswitched
      rcases hhit with ⟨path, hpath, hcarries⟩ | hraises
      · obtain rfl := Option.some.inj hpath
        exact absurd hcarries (not_carriesSuffix_miscPath r)
      · obtain rfl := raisesSlot_iff.mp hraises
        exact ⟨mistakes_iff.mpr hcurrent, ⟨slot, hreports⟩, hopens⟩

/-- The running slot is left alone exactly when no read of the command line mistakes the
other slot for it and the call then gets as far as an erase, or as a write of the record. -/
theorem packet_keeps_running_iff (p : Option String) (r : Slot) :
    KeepsRunning g host ctrl a m p r ↔
      ∀ q, p = some q → ctrl.isInit = true → a.realpath = true → a.accessTemp = true →
        (Mistakes a.cmdline m.cmdline r → ¬ a.ErasesImage g ctrl m q) ∧
        (Mistakes a.activate.cmdline m.cmdline r → ¬ a.WritesRecord g ctrl m q) := by
  obtain ⟨ret, acts, devs, hrun, -, hperf, -⟩ :=
    packet_run g host ctrl a m p
  rw [keepsRunning_iff_acts hperf]
  constructor
  · intro hkeeps q hp hinit hreal htemp
    constructor
    · intro hmistakes herases
      have hstarts : a.Starts ctrl m r.other := ⟨hinit, hreal, mistakes_iff.mp hmistakes, htemp⟩
      obtain ⟨e, he, path, hpath, hcarries⟩ := exists_erase hrun hp hstarts herases
      exact (hkeeps e he (by simp [Event.modifies, hpath])).1 path hpath hcarries
    · intro hmistakes hwrites
      obtain ⟨e, he, hmod, hraises⟩ := exists_raise hrun hp (mistakes_iff.mp hmistakes) hwrites
      exact (hkeeps e he hmod).2 hraises
  · intro hall e he hmod
    have hmiss : ¬ ((∃ path, e.target = some path ∧ CarriesSuffix path r) ∨ RaisesSlot r e) := by
      intro hhit
      obtain ⟨q, slot, hp, hstarts, hcases⟩ := of_hit hrun he hmod hhit
      obtain ⟨hno, hno'⟩ := hall q hp hstarts.isInit hstarts.realpath hstarts.accessTemp
      rcases hcases with ⟨hmistakes, herases⟩ | ⟨hmistakes, hwrites⟩
      · exact hno hmistakes herases
      · exact hno' hmistakes hwrites
    exact ⟨fun path hpath hcarries => hmiss (.inl ⟨path, hpath, hcarries⟩), fun h => hmiss (.inr h)⟩

/-- On a device running from slot `b`, a read of the command line that returns nothing has
the running root file system erased. -/
theorem packet_not_keeps_running :
    ¬ ∀ (g : FlashCtrl) (host : Endian) (ctrl : UpgradeCtrl) (a : PacketAnswers) (m : Machine)
        (p : Option String) (r : Slot),
        ("android_slotsufix=_".toList ++ [r.suffix] ++ ['\n'] <:+ m.cmdline) →
        KeepsRunning g host ctrl a m p r := by
  intro h
  let a : PacketAnswers :=
    { PacketAnswers.faultless userdataCtrl.tempDir (fun p => if p = .system then some [1, 2, 3] else none) with
      cmdline := ⟨true, 0⟩ }
  have hkeeps := h smallFlash .little userdataCtrl a (deviceOn .b) (some "/userdata/update.tar") .b
    ⟨"console=ttyS0 ".toList, by decide⟩
  have hissued : (deviceOn .b).Issued
      (packet smallFlash .little userdataCtrl a (some "/userdata/update.tar") (deviceOn .b)).2
      (.flashErase (destPath .system .b) 0 4) :=
    ⟨_, by exact (List.nil_append _).symm, by decide⟩
  exact (hkeeps _ hissued).1 _ rfl (by decide)

end LinuxOta.Upgrade
