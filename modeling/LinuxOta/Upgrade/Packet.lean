-- SUMMARY: The runs of `rk_upgrade_packet`: how far a call gets, what it performs, and what it leaves on the devices.
import LinuxOta.Upgrade.Images

namespace LinuxOta.Upgrade

/-! # A call of rk_upgrade_packet -/

namespace PacketAnswers

/-- The checks before unpacking succeed, and `slot` is taken for the running slot. -/
structure Starts (a : PacketAnswers) (ctrl : UpgradeCtrl) (m : Machine) (slot : Slot) : Prop where
  isInit : ctrl.isInit = true
  realpath : a.realpath = true
  cmdline : AbMeta.getRunningSlot a.cmdline m = some slot
  accessTemp : a.accessTemp = true

/-- The status `system` reports for `tar`. -/
def status (a : PacketAnswers) (ctrl : UpgradeCtrl) (m : Machine) (packet : String) : Int :=
  (a.system (unpackCmd ctrl packet) m.files).1

/-- The files after `tar`. -/
def unpacked (a : PacketAnswers) (ctrl : UpgradeCtrl) (m : Machine) (packet : String) :
    String → Option Bytes :=
  (a.system (unpackCmd ctrl packet) m.files).2

/-- The call reports success: no failure it notices, of `tar` or for an image. -/
structure Reports (a : PacketAnswers) (g : FlashCtrl) (ctrl : UpgradeCtrl) (m : Machine)
    (packet : String) (slot : Slot) : Prop where
  starts : a.Starts ctrl m slot
  status : 0 ≤ a.status ctrl m packet
  images : ∀ p, Passes g a.image ctrl.tempDir (a.unpacked ctrl m packet) p

theorem Starts.slot_eq {a : PacketAnswers} {ctrl : UpgradeCtrl} {m : Machine} {s t : Slot}
    (h : a.Starts ctrl m s) (h' : a.Starts ctrl m t) : t = s :=
  Option.some.inj (h'.cmdline.symm.trans h.cmdline)

/-- What is on the devices has no part in the success of a call. -/
theorem reports_devs_iff {a : PacketAnswers} {g : FlashCtrl} {ctrl : UpgradeCtrl} {m : Machine}
    {devs : String → Content} {packet : String} {slot : Slot} :
    a.Reports g ctrl { m with devs := devs } packet slot ↔ a.Reports g ctrl m packet slot := by
  constructor <;> rintro ⟨⟨hinit, hreal, hslot, htemp⟩, hstatus, himages⟩ <;>
    exact ⟨⟨hinit, hreal, hslot, htemp⟩, hstatus, himages⟩

end PacketAnswers

/-- The runs of `rk_upgrade_packet` from `m`: what it returns, what it performs, and the
devices afterwards. -/
inductive PacketRun (g : FlashCtrl) (ctrl : UpgradeCtrl) (a : PacketAnswers) (m : Machine) :
    Option String → Int → List Event → (String → Content) → Prop where
  | refused {packet : Option String} (h : ∀ p slot, packet = some p → ¬ a.Starts ctrl m slot) :
    PacketRun g ctrl a m packet (-1) [] m.devs
  | notUnpacked {p : String} {slot : Slot} (hstarts : a.Starts ctrl m slot)
      (hstatus : a.status ctrl m p < 0) :
    PacketRun g ctrl a m (some p) (-1)
      [.system (unpackCmd ctrl p), .publish .resultFailure (-1)] m.devs
  | imageFailed {p : String} {slot : Slot} {acts : List Event} {ret : Int} {devs : String → Content}
      (hstarts : a.Starts ctrl m slot) (hstatus : 0 ≤ a.status ctrl m p)
      (himages : ImagesRun g a.image ctrl.tempDir slot (a.unpacked ctrl m p) partNames
        (a.status ctrl m p) m.devs acts ret devs)
      (hret : ret < 0) :
    PacketRun g ctrl a m (some p) ret
      (.system (unpackCmd ctrl p) :: acts ++ [.publish .resultFailure 0]) devs
  | finished {p : String} {slot : Slot} {acts : List Event} {ret : Int} {devs : String → Content}
      (hstarts : a.Starts ctrl m slot) (hstatus : 0 ≤ a.status ctrl m p)
      (himages : ImagesRun g a.image ctrl.tempDir slot (a.unpacked ctrl m p) partNames
        (a.status ctrl m p) m.devs acts ret devs)
      (hret : 0 ≤ ret) :
    PacketRun g ctrl a m (some p) ret
      (.system (unpackCmd ctrl p) :: acts ++
        (.activateAnotherSlot :: handedActs (a.activate.switched g m) ++ [.publish .resultSuccess 0]))
      (Function.update devs miscPath
        (handedMisc a.activate.write.onRecord (m.devs miscPath) (a.activate.switched g m)))

theorem partNames_nodup : partNames.Nodup := by decide

theorem mem_partNames (p : Part) : p ∈ partNames := by cases p <;> decide

theorem miscPath_ne_destPath (s : Slot) (p : Part) : miscPath ≠ destPath p s :=
  (destPath_ne_miscPath p s).symm

namespace PacketRun

variable {g : FlashCtrl} {ctrl : UpgradeCtrl} {a : PacketAnswers} {m : Machine} {packet : Option String}
  {ret : Int} {acts : List Event} {devs : String → Content}

/-- A call either reports success, and then has ordered the switch, or has returned a
negative value without touching the misc partition. -/
theorem reports_or_not (h : PacketRun g ctrl a m packet ret acts devs) :
    (∃ p slot images imageDevs, packet = some p ∧ a.Reports g ctrl m p slot ∧ 0 ≤ ret ∧
      ImagesRun g a.image ctrl.tempDir slot (a.unpacked ctrl m p) partNames (a.status ctrl m p)
        m.devs images ret imageDevs ∧
      acts = .system (unpackCmd ctrl p) :: images ++
        (.activateAnotherSlot :: handedActs (a.activate.switched g m) ++ [.publish .resultSuccess 0]) ∧
      devs = Function.update imageDevs miscPath
        (handedMisc a.activate.write.onRecord (m.devs miscPath) (a.activate.switched g m))) ∨
    ((∀ p slot, packet = some p → ¬ a.Reports g ctrl m p slot) ∧ ret < 0 ∧
      devs miscPath = m.devs miscPath ∧ .activateAnotherSlot ∉ acts ∧
      (∀ result, .publish .resultSuccess result ∉ acts)) := by
  have himages : ∀ {slot : Slot} {files : String → Option Bytes} {ret₀ ret : Int} {acts : List Event}
      {devs : String → Content} {e : Event},
      ImagesRun g a.image ctrl.tempDir slot files partNames ret₀ m.devs acts ret devs →
      e.target = none → e ∉ acts := by
    intro slot files ret₀ ret acts devs e hrun hnone he
    obtain ⟨p, hp⟩ := hrun.target_of_mem he
    simp [hnone] at hp
  cases h with
  | refused h =>
    exact .inr ⟨fun p slot hp hr => h p slot hp hr.starts, by decide, rfl, by simp, by simp⟩
  | notUnpacked hstarts hstatus =>
    refine .inr ⟨?_, by decide, rfl, by simp, by simp⟩
    rintro p slot ⟨⟩ hr
    exact absurd hr.status (Int.not_le.mpr hstatus)
  | imageFailed hstarts hstatus hrun hret =>
    refine .inr ⟨?_, hret, hrun.devs_of_ne (miscPath_ne_destPath _), ?_, ?_⟩
    · rintro p slot ⟨⟩ hr
      have hnonneg := (hrun.ret_nonneg_iff hstatus).mpr fun p _ => hr.images p
      exact absurd hnonneg (Int.not_le.mpr hret)
    · simp [himages hrun (e := .activateAnotherSlot) rfl]
    · intro result
      simp [himages hrun (e := .publish .resultSuccess result) rfl]
  | @finished p slot acts ret devs hstarts hstatus hrun hret =>
    have hpass := (hrun.ret_nonneg_iff hstatus).mp hret
    exact .inl ⟨p, slot, acts, devs, rfl, ⟨hstarts, hstatus, fun p => hpass p (mem_partNames p)⟩,
      hret, hrun, rfl, rfl⟩

/-- Only the misc partition and those of the slot that does not run change. -/
theorem devs_of_ne (h : PacketRun g ctrl a m packet ret acts devs) {path : String}
    (hmisc : path ≠ miscPath)
    (hpath : ∀ slot part, a.Starts ctrl m slot → path ≠ destPath part slot.other) :
    devs path = m.devs path := by
  cases h with
  | refused => rfl
  | notUnpacked => rfl
  | @imageFailed _ slot _ _ _ hstarts _ himages _ =>
    exact himages.devs_of_ne fun part => hpath slot part hstarts
  | @finished _ slot _ _ _ hstarts _ himages _ =>
    rw [Function.update_of_ne hmisc]
    exact himages.devs_of_ne fun part => hpath slot part hstarts

/-- A packet that was unpacked has its images processed. -/
theorem images_run {q : String} {slot : Slot} (h : PacketRun g ctrl a m (some q) ret acts devs)
    (hstarts : a.Starts ctrl m slot) (hstatus : 0 ≤ a.status ctrl m q) :
    ∃ images ret' devs', (∀ e ∈ images, e ∈ acts) ∧
      ImagesRun g a.image ctrl.tempDir slot (a.unpacked ctrl m q) partNames (a.status ctrl m q)
        m.devs images ret' devs' := by
  cases h with
  | refused hno => exact absurd hstarts (hno q slot rfl)
  | notUnpacked _ hneg => exact absurd hstatus (Int.not_le.mpr hneg)
  | @imageFailed _ slot' images ret devs hstarts' _ himages hneg =>
    obtain rfl := hstarts.slot_eq hstarts'
    exact ⟨images, _, _, fun e he => by simp [he], himages⟩
  | @finished _ slot' images ret devs hstarts' _ himages hnonneg =>
    obtain rfl := hstarts.slot_eq hstarts'
    exact ⟨images, _, _, fun e he => by simp [he], himages⟩

/-- An erase or write of a call is one for an image, or that of the record. -/
theorem mem_acts_cases (h : PacketRun g ctrl a m packet ret acts devs) {e : Event} (he : e ∈ acts)
    (hmod : e.modifies = true) :
    (∃ q slot images ret' devs', packet = some q ∧ a.Starts ctrl m slot ∧ 0 ≤ a.status ctrl m q ∧
      e ∈ images ∧ ImagesRun g a.image ctrl.tempDir slot (a.unpacked ctrl m q) partNames
        (a.status ctrl m q) m.devs images ret' devs') ∨
    (∃ q slot, packet = some q ∧ a.Reports g ctrl m q slot ∧
      e ∈ handedActs (a.activate.switched g m)) := by
  have hsystem : ∀ cmd, e ≠ .system cmd := by rintro cmd rfl; simp at hmod
  have hpublish : ∀ event result, e ≠ .publish event result := by
    rintro event result rfl; simp at hmod
  have hactivate : e ≠ .activateAnotherSlot := by rintro rfl; simp at hmod
  cases h with
  | refused hno => simp at he
  | notUnpacked hstarts hstatus => simp [hsystem, hpublish] at he
  | @imageFailed q slot images ret devs hstarts hstatus himages hneg =>
    have hmem : e ∈ images := by simpa [hsystem, hpublish] using he
    exact .inl ⟨q, slot, images, _, _, rfl, hstarts, hstatus, hmem, himages⟩
  | @finished q slot images ret devs hstarts hstatus himages hnonneg =>
    have hmem : e ∈ images ∨ e ∈ handedActs (a.activate.switched g m) := by
      simpa [hsystem, hpublish, hactivate] using he
    rcases hmem with hmem | hmem
    · exact .inl ⟨q, slot, images, _, _, rfl, hstarts, hstatus, hmem, himages⟩
    · have hpass := (himages.ret_nonneg_iff hstatus).mp hnonneg
      exact .inr ⟨q, slot, rfl, ⟨hstarts, hstatus, fun p => hpass p (mem_partNames p)⟩, hmem⟩

end PacketRun

variable {g : FlashCtrl} {host : Endian} {ctrl : UpgradeCtrl} {a : PacketAnswers} {m : Machine}

/-- The record handed over depends on the command line and the misc partition only. -/
theorem switched_congr (m' : Machine) {b : AbMeta.MetaAnswers} (hcmdline : m'.cmdline = m.cmdline)
    (hmisc : m'.devs miscPath = m.devs miscPath) : b.switched g m' = b.switched g m := by
  have hslot : AbMeta.getRunningSlot b.cmdline m' = AbMeta.getRunningSlot b.cmdline m := by
    simp only [AbMeta.getRunningSlot, hcmdline]
  have hbuffer : AbMeta.bufferAfter b.read m' = AbMeta.bufferAfter b.read m := by
    simp only [AbMeta.bufferAfter, Machine.record, hmisc]
  simp only [AbMeta.MetaAnswers.switched, hslot, hbuffer]

/-- A call that fails a check before unpacking does nothing. -/
private theorem packet_refused {p : Option String}
    (hno : ∀ q slot, p = some q → ¬ a.Starts ctrl m slot) :
    packet g host ctrl a p m = (-1, m) := by
  cases p with
  | none => rfl
  | some q =>
    cases hslot : AbMeta.getRunningSlot a.cmdline m with
    | none => simp [packet, hslot]
    | some slot =>
      have hfails : ¬ (ctrl.isInit = true ∧ a.realpath = true ∧ a.accessTemp = true) :=
        fun h => hno q slot rfl ⟨h.1, h.2.1, hslot, h.2.2⟩
      simp only [packet, hslot]
      cases hi : ctrl.isInit <;> cases hr : a.realpath <;> cases ht : a.accessTemp <;> simp_all

/-- The machine after `tar`. -/
def PacketAnswers.afterTar (a : PacketAnswers) (ctrl : UpgradeCtrl) (m : Machine) (packet : String) : Machine :=
  { m with files := a.unpacked ctrl m packet }.log (.system (unpackCmd ctrl packet))

/-- A call that passes these checks. -/
private theorem packet_started {q : String} {slot : Slot} (hs : a.Starts ctrl m slot) :
    packet g host ctrl a (some q) m =
      if a.status ctrl m q < 0 then (-1, (a.afterTar ctrl m q).log (.publish .resultFailure (-1)))
      else
        let r := partitions g a.image ctrl.tempDir slot partNames (a.status ctrl m q) (a.afterTar ctrl m q)
        if r.1 ≥ 0 then
          (r.1, (AbMeta.activeAnotherSlot g host a.activate (r.2.log .activateAnotherSlot)).2.log
            (.publish .resultSuccess 0))
        else (r.1, r.2.log (.publish .resultFailure 0)) := by
  simp only [packet, hs.isInit, hs.realpath, hs.cmdline, hs.accessTemp, PacketAnswers.afterTar,
    PacketAnswers.unpacked, PacketAnswers.status, Bool.not_true, Bool.false_eq_true, ↓reduceIte]
  rfl

variable (g host ctrl a m) in
/-- Every call is one of the runs. -/
theorem packet_run (p : Option String) :
    ∃ ret acts devs, PacketRun g ctrl a m p ret acts devs ∧
      (packet g host ctrl a p m).1 = ret ∧ m.Performs (packet g host ctrl a p m).2 acts ∧
      (packet g host ctrl a p m).2.devs = devs := by
  by_cases hstart : ∃ q slot, p = some q ∧ a.Starts ctrl m slot
  swap
  · have hno : ∀ q slot, p = some q → ¬ a.Starts ctrl m slot :=
      fun q slot hp hs => hstart ⟨q, slot, hp, hs⟩
    rw [packet_refused hno]
    exact ⟨-1, [], m.devs, .refused hno, rfl, .refl m, rfl⟩
  obtain ⟨q, slot, rfl, hs⟩ := hstart
  have htar : m.Performs (a.afterTar ctrl m q) [.system (unpackCmd ctrl q)] := ⟨rfl, [_], rfl, rfl⟩
  rw [packet_started hs]
  by_cases hstatus : a.status ctrl m q < 0
  · rw [if_pos hstatus]
    exact ⟨_, _, _, .notUnpacked hs hstatus, rfl, htar.log_act rfl, rfl⟩
  rw [if_neg hstatus]
  obtain ⟨acts, ret, devs, himages, hret, hperf, hdevs⟩ :=
    partitions_run (g := g) a.image ctrl.tempDir slot partNames_nodup (a.status ctrl m q)
      (m := a.afterTar ctrl m q) (fun p _ => rfl)
  have hperf' := htar.trans hperf
  generalize partitions g a.image ctrl.tempDir slot partNames (a.status ctrl m q) (a.afterTar ctrl m q) = r
    at *
  subst hret hdevs
  have himages' : ImagesRun g a.image ctrl.tempDir slot (a.unpacked ctrl m q) partNames (a.status ctrl m q)
      m.devs acts r.1 r.2.devs := himages
  by_cases hneg : r.1 < 0
  · simp only [ge_iff_le, Int.not_le.mpr hneg, ↓reduceIte]
    exact ⟨_, _, _, .imageFailed hs (Int.not_lt.mp hstatus) himages' hneg, rfl, hperf'.log_act rfl, rfl⟩
  · have hmisc : r.2.devs miscPath = m.devs miscPath := himages'.devs_of_ne (miscPath_ne_destPath _)
    have heff := AbMeta.activeAnotherSlot_effect host (g := g) (a := a.activate)
      (m := r.2.log .activateAnotherSlot)
    rw [switched_congr (m := m) (r.2.log .activateAnotherSlot) hperf'.cmdline hmisc] at heff
    simp only [ge_iff_le, Int.not_lt.mp hneg, ↓reduceIte]
    refine ⟨_, _, _, .finished hs (Int.not_lt.mp hstatus) himages' (Int.not_lt.mp hneg), rfl, ?_, ?_⟩
    · have hall :=
        ((hperf'.log_act rfl).trans heff.performs).log_act (e := .publish .resultSuccess 0) rfl
      simpa using hall
    · simp only [Machine.log_devs, heff.devs, hmisc]

/-! ## A call without faults

Concrete answers, for the inputs on which single calls are looked at. -/

/-- All calls made for an image succeed. -/
def ImageAnswers.faultless : ImageAnswers where
  access := true
  fopen := true
  fseek := true
  flashOpen := 3
  fseekCopy := true
  ftell := true
  calloc := true
  block := fun _ => ⟨2 ^ 31, 0, .stored⟩
  remove := true

/-- All calls made for the record succeed. -/
def MetaAnswers.faultless : AbMeta.MetaAnswers where
  openRead := 3
  read := .filled
  cmdline := ⟨true, 511⟩
  openWrite := 3
  write := .stored

/-- All calls succeed, and unpacking adds the images `content`. -/
def PacketAnswers.faultless (dir : String) (content : Part → Option Bytes) : PacketAnswers where
  realpath := true
  cmdline := ⟨true, 511⟩
  accessTemp := true
  system := fun _ files =>
    (0, fun url =>
      if url = srcPath dir .uboot then content .uboot <|> files url
      else if url = srcPath dir .boot then content .boot <|> files url
      else if url = srcPath dir .system then content .system <|> files url
      else files url)
  image := fun _ => .faultless
  activate := MetaAnswers.faultless

/-- The flash layer on an eMMC with 4-byte blocks. -/
def smallFlash : FlashCtrl := ⟨true, 4⟩

/-- The initialised upgrade module. -/
def userdataCtrl : UpgradeCtrl := ⟨true, "/userdata/temp"⟩

end LinuxOta.Upgrade
