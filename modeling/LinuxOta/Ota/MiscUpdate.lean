-- SUMMARY: What `miscUpdate` writes, and when sequences of updates leave the running slot alone.
import LinuxOta.Base.Run
import LinuxOta.Ota.Bootloader

namespace LinuxOta.Bootloader

/-! # miscUpdate -/

/-! ## Partition names -/

theorem toList_suffixed (front : String) (s : Slot) :
    (front ++ "_" ++ s.suffix.toString).toList = front.toList ++ ['_', s.suffix] := by
  have hsep : "_".toList = ['_'] := rfl
  have hsuffix : s.suffix.toString.toList = [s.suffix] := by
    rw [Char.toString, String.toList_singleton]
  rw [String.toList_append, String.toList_append, hsep, hsuffix, List.append_assoc,
    List.singleton_append]

/-- The name of a partition ends with the suffix of its slot. -/
theorem Site.destPath_toList (site : Site) (s : Slot) :
    ∃ front, (site.destPath s).toList = front ++ ['_', s.suffix] :=
  ⟨_, toList_suffixed ("/dev/block/by-name/" ++ site.name) s⟩

theorem Site.carriesSuffix_iff (site : Site) (s t : Slot) :
    CarriesSuffix (site.destPath s) t ↔ s = t := by
  obtain ⟨front, hpath⟩ := site.destPath_toList s
  rw [CarriesSuffix, hpath]
  have hself : ['_', s.suffix] <:+ front ++ ['_', s.suffix] := List.suffix_append front _
  constructor
  · intro h
    have heq := (List.suffix_of_suffix_length_le h hself (by simp)).eq_of_length (by simp)
    exact Slot.suffix_injective (by simpa using heq.symm)
  · rintro rfl
    exact hself

theorem Site.destPath_ne_miscPath (site : Site) (s : Slot) : site.destPath s ≠ miscPath := by
  intro h
  have hcarries := (site.carriesSuffix_iff s s).mpr rfl
  rw [h] at hcarries
  revert hcarries
  cases s <;> decide

/-! ## flash_write -/

/-- The image `flash_write` hands to its write first: the first one that is found, if
`stat` succeeds for it. -/
def MiscUpdateAnswers.handsImage (a : MiscUpdateAnswers) (imageDir : String) (sites : List Site)
    (files : String → Option Bytes) : Bool :=
  match sites.find? fun site => a.access site && (files (site.srcPath imageDir)).isSome with
  | none => false
  | some site => (a.image site).stat

variable {host : Endian} {a : MiscUpdateAnswers} {m : Machine}

/-- What `flash_write` may do to the machine: it writes images to partitions of slot `s`. -/
structure WritesImages (s : Slot) (acts : List Event) (m m' : Machine) : Prop where
  performs : m.Performs m' acts
  copies : ∀ e ∈ acts, ∃ (src : String) (site : Site), e = .copyImage src (site.destPath s)
  misc : m'.devs miscPath = m.devs miscPath

theorem WritesImages.refl (s : Slot) (m : Machine) : WritesImages s [] m m :=
  ⟨.refl m, by simp, rfl⟩

theorem WritesImages.trans {s : Slot} {m m' m'' : Machine} {acts acts' : List Event}
    (h : WritesImages s acts m m') (h' : WritesImages s acts' m' m'') :
    WritesImages s (acts ++ acts') m m'' where
  performs := h.performs.trans h'.performs
  copies e he := (List.mem_append.mp he).elim (h.copies e) (h'.copies e)
  misc := h'.misc.trans h.misc

/-- `flash_write_partition` writes once, when `stat` succeeds, and to the partition it is
given. -/
theorem flashWritePartition_writes {b : ImageWriteAnswers} {src : String} (site : Site) {s : Slot}
    (hexists : (m.files src).isSome = true) :
    WritesImages s (if b.stat then [.copyImage src (site.destPath s)] else []) m
      (flashWritePartition b src (site.destPath s) m).2 := by
  cases hstat : b.stat with
  | false =>
    simp only [flashWritePartition, hstat, Bool.false_and, Bool.not_false, ↓reduceIte,
      Bool.false_eq_true]
    exact .refl s m
  | true =>
    have hmisc : ∀ c, Function.update m.devs (site.destPath s) c miscPath = m.devs miscPath := by
      intro c
      rw [Function.update_of_ne (site.destPath_ne_miscPath s).symm]
    simp only [flashWritePartition, hstat, hexists, Bool.and_self, Bool.not_true,
      Bool.false_eq_true, ↓reduceIte]
    have hcopies : ∀ e ∈ [Event.copyImage src (site.destPath s)],
        ∃ (src : String) (site : Site), e = .copyImage src (site.destPath s) :=
      fun e he => ⟨src, site, List.mem_singleton.mp he⟩
    have hwrite : ∀ c, WritesImages s [.copyImage src (site.destPath s)] m
        ((m.log (.copyImage src (site.destPath s))).withDev (site.destPath s) c) := by
      intro c
      exact ⟨⟨rfl, [.copyImage src (site.destPath s)], rfl, rfl⟩, hcopies, hmisc c⟩
    split
    · exact hwrite _
    · split
      · exact hwrite _
      · split
        · refine ⟨⟨rfl, [.copyImage src (site.destPath s), .removed src], by simp [Machine.withDev], rfl⟩,
            hcopies, hmisc _⟩
        · exact hwrite _

/-- `flash_write` writes images to partitions of the other slot only, and writes at all
exactly when it hands over a first image. -/
theorem flashWriteImages_writes (imageDir : String) (slot : Slot) (sites : List Site) :
    ∃ acts, WritesImages slot.other acts m (flashWriteImages a imageDir slot sites m).2 ∧
      (acts ≠ [] ↔ a.handsImage imageDir sites m.files = true) := by
  induction sites generalizing m with
  | nil => exact ⟨[], .refl _ m, by simp [MiscUpdateAnswers.handsImage]⟩
  | cons site sites ih =>
    by_cases hfound : (a.access site && (m.files (site.srcPath imageDir)).isSome) = true
    · have hexists : (m.files (site.srcPath imageDir)).isSome = true := by
        simp only [Bool.and_eq_true] at hfound
        exact hfound.2
      have hwrite := flashWritePartition_writes (b := a.image site) (s := slot.other) site hexists
      have hhands : a.handsImage imageDir (site :: sites) m.files = (a.image site).stat := by
        simp [MiscUpdateAnswers.handsImage, hfound]
      simp only [flashWriteImages, hfound, ↓reduceIte, hhands]
      by_cases hret :
          (flashWritePartition (a.image site) (site.srcPath imageDir) (site.destPath slot.other) m).1 = 0
      · obtain ⟨acts, hrest, -⟩ := ih (m :=
          (flashWritePartition (a.image site) (site.srcPath imageDir) (site.destPath slot.other) m).2)
        have hstat : (a.image site).stat = true := by
          cases hstat : (a.image site).stat with
          | true => rfl
          | false => simp [flashWritePartition, hstat] at hret
        rw [if_pos hstat] at hwrite
        simp only [hret, ne_eq, not_true_eq_false, ↓reduceIte]
        exact ⟨_, hwrite.trans hrest, by simp [hstat]⟩
      · simp only [ne_eq, hret, not_false_eq_true, ↓reduceIte]
        refine ⟨_, hwrite, ?_⟩
        cases (a.image site).stat <;> simp
    · have hhands : a.handsImage imageDir (site :: sites) m.files =
          a.handsImage imageDir sites m.files := by
        simp only [MiscUpdateAnswers.handsImage, List.find?_cons, hfound]
      simp only [flashWriteImages, hfound, Bool.false_eq_true, ↓reduceIte, hhands]
      exact ih

/-- `flash_write` takes the slot the record selects for the running one. -/
theorem flashWrite_writes (imageDir partition : String) (extraPartition : Option String) :
    ∃ slot acts, WritesImages slot.other acts m (flashWrite a imageDir partition extraPartition m).2 ∧
      (acts ≠ [] ∨ (flashWrite a imageDir partition extraPartition m).1 = 0 → m.record.Selects slot) ∧
      (acts ≠ [] ↔ a.read = .filled ∧ (∃ s, m.record.Selects s) ∧
        ∃ parts, partsNamed partition = some parts ∧
          a.handsImage imageDir (parts.map .part ++ (extraPartition.map .extra).toList) m.files = true) := by
  let m₁ := m.log (.flashRead miscPath metaDataOffset 32)
  have hread₁ : ∀ s, WritesImages s [] m m₁ :=
    fun s => ⟨⟨rfl, [.flashRead miscPath metaDataOffset 32], rfl, rfl⟩, by simp, rfl⟩
  by_cases hread : a.read = .filled
  swap
  · have hres : flashWrite a imageDir partition extraPartition m = (-1, m₁) := by
      simp only [flashWrite, readABMisc_failed hread, m₁]
    rw [hres]
    exact ⟨.a, [], hread₁ _, by simp, by simp [hread]⟩
  cases hslot : getCurrentSlot m.record with
  | none =>
    have hno : ∀ s, ¬ m.record.Selects s := by
      intro s hs
      rw [getCurrentSlot_eq] at hslot
      exact absurd (hslot.symm.trans hs) (by simp)
    have hres : flashWrite a imageDir partition extraPartition m = (-1, m₁) := by
      simp only [flashWrite, readABMisc_filled hread, hslot, m₁]
    rw [hres]
    exact ⟨.a, [], hread₁ _, by simp, by simp [hno]⟩
  | some slot =>
    have hselects : m.record.Selects slot := by
      rw [getCurrentSlot_eq] at hslot
      exact hslot
    cases hparts : partsNamed partition with
    | none =>
      have hres : flashWrite a imageDir partition extraPartition m = (-1, m₁) := by
        simp only [flashWrite, readABMisc_filled hread, hslot, hparts, m₁]
      rw [hres]
      exact ⟨slot, [], hread₁ _, fun _ => hselects, by simp⟩
    | some parts =>
      have hres : flashWrite a imageDir partition extraPartition m = flashWriteImages a imageDir slot
          (parts.map .part ++ (extraPartition.map .extra).toList) m₁ := by
        simp only [flashWrite, readABMisc_filled hread, hslot, hparts, m₁]
      obtain ⟨acts, hwrites, hhands⟩ := flashWriteImages_writes (a := a) (m := m₁) imageDir slot
        (parts.map .part ++ (extraPartition.map .extra).toList)
      rw [hres]
      refine ⟨slot, acts, (hread₁ _).trans hwrites, fun _ => hselects, ?_⟩
      rw [hhands]
      constructor
      · intro h
        exact ⟨hread, ⟨slot, hselects⟩, parts, rfl, h⟩
      · rintro ⟨-, -, parts', heq, h⟩
        obtain rfl := Option.some.inj heq
        exact h

/-! ## miscUpdate -/

/-- The arguments of `miscUpdate`. -/
structure UpdateArgs where
  tarPath : Option String
  saveDir : Option String
  updatePartition : Option String
  extraPartition : Option String
  deriving DecidableEq, Repr

/-- `unpack_tar_cmd`. -/
def UpdateArgs.unpackCmd (args : UpdateArgs) (tarPath : String) : String :=
  "tar -xf " ++ tarPath ++ " -C " ++ saveDirectory args.saveDir

/-- The call hands an image to its write: `tar` exits with status 0, the record is read
and selects a slot, the partition is one of those known, and `stat` succeeds for the
first image that is found. -/
def MiscUpdateAnswers.Copies (a : MiscUpdateAnswers) (args : UpdateArgs) (m : Machine) : Prop :=
  ∃ tarPath, args.tarPath = some tarPath ∧ (a.system (args.unpackCmd tarPath) m.files).1 = 0 ∧
    a.read = .filled ∧ (∃ s, m.record.Selects s) ∧
    ∃ parts, partsNamed (args.updatePartition.getD "all") = some parts ∧
      a.handsImage (saveDirectory args.saveDir)
        (parts.map .part ++ (args.extraPartition.map .extra).toList)
        (a.system (args.unpackCmd tarPath) m.files).2 = true

/-- The machine after `miscUpdate`, and its return code. -/
def UpdateArgs.run (args : UpdateArgs) (host : Endian) (a : MiscUpdateAnswers) (m : Machine) :
    Int × Machine :=
  miscUpdate a host args.tarPath args.saveDir args.updatePartition args.extraPartition m

/-- The machine after `tar`. -/
def MiscUpdateAnswers.afterTar (a : MiscUpdateAnswers) (args : UpdateArgs) (tarPath : String)
    (m : Machine) :
    Machine :=
  { m with files := (a.system (args.unpackCmd tarPath) m.files).2 }.log (.system (args.unpackCmd tarPath))

/-- A call with a path, in its steps. -/
theorem UpdateArgs.run_eq {args : UpdateArgs} {tarPath : String} (htar : args.tarPath = some tarPath) :
    args.run host a m =
      if (a.system (args.unpackCmd tarPath) m.files).1 ≠ 0 then (-1, a.afterTar args tarPath m)
      else
        let w := flashWrite a (saveDirectory args.saveDir) (args.updatePartition.getD "all")
          args.extraPartition (a.afterTar args tarPath m)
        if w.1 ≠ 0 then (-1, w.2)
        else
          let r := setSlotActivity host a.activity w.2
          if r.1 ≠ 0 then (-1, r.2) else (0, r.2) := by
  rw [UpdateArgs.run, htar]
  rfl

/-- Whether a call whose `tar` succeeded hands over an image is up to `flash_write`. -/
private theorem copies_iff {args : UpdateArgs} {tarPath : String}
    (htar : args.tarPath = some tarPath)
    (hstatus : (a.system (args.unpackCmd tarPath) m.files).1 = 0) :
    a.Copies args m ↔ a.read = .filled ∧ (∃ s, m.record.Selects s) ∧
      ∃ parts, partsNamed (args.updatePartition.getD "all") = some parts ∧
        a.handsImage (saveDirectory args.saveDir)
          (parts.map .part ++ (args.extraPartition.map .extra).toList)
          (a.afterTar args tarPath m).files = true := by
  constructor
  · rintro ⟨tarPath', heq, -, hread, hselects, hparts⟩
    obtain rfl := Option.some.inj (htar.symm.trans heq)
    exact ⟨hread, hselects, hparts⟩
  · rintro ⟨hread, hselects, hparts⟩
    exact ⟨tarPath, htar, hstatus, hread, hselects, hparts⟩

variable (host) in
/-- `miscUpdate` writes images to the slot the record does not select, and then makes the
record select it. -/
theorem miscUpdate_run (args : UpdateArgs) :
    ∃ slot pre images d, m.Performs (args.run host a m).2 (pre ++ images ++ handedActs d) ∧
      (∀ e ∈ pre, ∃ cmd, e = .system cmd) ∧
      (∀ e ∈ images, ∃ (src : String) (site : Site), e = .copyImage src (site.destPath slot.other)) ∧
      (images ≠ [] → m.record.Selects slot) ∧ (images ≠ [] ↔ a.Copies args m) ∧
      ((args.run host a m).1 = 0 → m.record.Selects slot ∧
        (args.run host a m).2.record = (m.record.switchFrom slot).refreshCrc) := by
  cases htar : args.tarPath with
  | none =>
    have hres : args.run host a m = (-1, m) := by simp [UpdateArgs.run, miscUpdate, htar]
    have hno : ¬ a.Copies args m := by
      rintro ⟨tarPath, heq, -⟩
      simp [htar] at heq
    rw [hres]
    exact ⟨.a, [], [], none, .refl m, by simp, by simp, by simp, by simp [hno], by simp⟩
  | some tarPath =>
    let cmd := args.unpackCmd tarPath
    have hperf : m.Performs (a.afterTar args tarPath m) [.system cmd] :=
      ⟨rfl, [.system cmd], rfl, rfl⟩
    have hcmd : ∀ e ∈ [Event.system cmd], ∃ cmd, e = .system cmd :=
      fun e he => ⟨cmd, List.mem_singleton.mp he⟩
    rw [UpdateArgs.run_eq htar]
    by_cases hstatus : (a.system cmd m.files).1 = 0
    swap
    · have hno : ¬ a.Copies args m := by
        rintro ⟨tarPath', heq, hzero, -⟩
        obtain rfl := Option.some.inj (htar.symm.trans heq)
        exact hstatus hzero
      rw [if_pos hstatus]
      exact ⟨.a, [.system cmd], [], none, by simpa [handedActs] using hperf, hcmd, by simp, by simp,
        by simp [hno], by simp⟩
    rw [if_neg (not_not_intro hstatus), copies_iff htar hstatus]
    obtain ⟨slot, images, hwrites, hslot, hhands⟩ :=
      flashWrite_writes (a := a) (m := a.afterTar args tarPath m)
        (saveDirectory args.saveDir) (args.updatePartition.getD "all") args.extraPartition
    generalize flashWrite a (saveDirectory args.saveDir) (args.updatePartition.getD "all")
      args.extraPartition (a.afterTar args tarPath m) = w at *
    have hperf' := hperf.trans hwrites.performs
    by_cases hret : w.1 = 0
    swap
    · simp only [ne_eq, hret, not_false_eq_true, ↓reduceIte]
      exact ⟨slot, [.system cmd], images, none, by simpa [handedActs] using hperf', hcmd,
        hwrites.copies, fun h => hslot (.inl h), hhands, by simp⟩
    · have hselects : m.record.Selects slot := hslot (.inr hret)
      have hrecord : w.2.record = m.record := by
        rw [Machine.record, Machine.record, hwrites.misc]
        rfl
      have heff := setSlotActivity_effect host (a := a.activity) (m := w.2)
      simp only [ne_eq, hret, not_true_eq_false, ↓reduceIte]
      refine ⟨slot, [.system cmd], images, a.activity.switched w.2, ?_, hcmd, hwrites.copies,
        fun _ => hselects, hhands, ?_⟩
      · have hall := hperf'.trans heff.performs
        split <;> exact hall
      · intro hok
        refine ⟨hselects, ?_⟩
        have hzero : (setSlotActivity host a.activity w.2).1 = 0 := by
          by_contra hne
          simp [hne] at hok
        obtain ⟨nowSlot, hnow, hafter⟩ := setSlotActivity_success hzero
        rw [hrecord] at hnow hafter
        obtain rfl := hselects.unique hnow
        simpa only [hzero, not_true_eq_false, ↓reduceIte] using hafter

/-! ## Sequences of updates -/

/-- A call of the old update path. -/
inductive OtaCall where
  | miscUpdate (args : UpdateArgs) (a : MiscUpdateAnswers)
  | setSlotActivity (a : SlotAnswers)

/-- The machine after a call. -/
def OtaCall.after (host : Endian) : OtaCall → Machine → Machine
  | miscUpdate args a, m => (args.run host a m).2
  | setSlotActivity a, m => (Bootloader.setSlotActivity host a m).2

/-- The call writes no partition of slot `r`. -/
def SparesSlot (host : Endian) (r : Slot) (c : OtaCall) (m : Machine) : Prop :=
  ∀ src dest, m.Issued (c.after host m) (.copyImage src dest) → ¬ CarriesSuffix dest r

/-- If the call hands an image to its write, the record selects slot `r`. -/
def CopiesFrom (r : Slot) : OtaCall → Machine → Prop
  | .miscUpdate args a, m => a.Copies args m → m.record.Selects r
  | .setSlotActivity _, _ => True

theorem copyImage_not_mem_handedActs {src dest : String} (d : Option AbData) :
    .copyImage src dest ∉ handedActs d := by
  cases d <;> simp [handedActs]

theorem sparesSlot_iff (r : Slot) (c : OtaCall) (m : Machine) :
    SparesSlot host r c m ↔ CopiesFrom r c m := by
  cases c with
  | setSlotActivity b =>
    refine iff_of_true (fun src dest hissued => ?_) trivial
    have hperf := (setSlotActivity_effect host (a := b) (m := m)).performs
    exact absurd ((hperf.issued_iff rfl).mp hissued) (copyImage_not_mem_handedActs _)
  | miscUpdate args b =>
    obtain ⟨slot, pre, images, d, hperf, hpre, himages, hslot, hcopies, -⟩ :=
      miscUpdate_run host (a := b) (m := m) args
    have hissued : ∀ src dest, m.Issued ((OtaCall.miscUpdate args b).after host m) (.copyImage src dest) ↔
        .copyImage src dest ∈ images := by
      intro src dest
      have hnotpre : .copyImage src dest ∉ pre := by
        intro hmem
        obtain ⟨cmd, hcmd⟩ := hpre _ hmem
        cases hcmd
      rw [show (OtaCall.miscUpdate args b).after host m = (args.run host b m).2 from rfl,
        hperf.issued_iff rfl]
      simp [hnotpre, copyImage_not_mem_handedActs]
    constructor
    · intro hspares hc
      obtain ⟨e, rest, heq⟩ := List.exists_cons_of_ne_nil (hcopies.mpr hc)
      obtain ⟨src, site, rfl⟩ := himages e (by simp [heq])
      have hne := hspares src (site.destPath slot.other) ((hissued _ _).mpr (by simp [heq]))
      rw [site.carriesSuffix_iff] at hne
      obtain rfl : slot = r := by
        rcases Slot.eq_or_eq_other slot r with h | h
        · exact h.symm
        · exact absurd h.symm hne
      exact hslot (hcopies.mpr hc)
    · intro hfrom src dest hcopied
      rw [hissued] at hcopied
      have hne : images ≠ [] := List.ne_nil_of_mem hcopied
      obtain ⟨src', site, heq⟩ := himages _ hcopied
      obtain rfl := (hslot hne).unique (hfrom (hcopies.mp hne))
      cases heq
      rw [site.carriesSuffix_iff]
      exact Slot.other_ne r

/-- In a sequence of calls no call writes a partition of slot `r`, exactly when every call
that writes an image is made while the record still selects `r`. -/
theorem updates_spare_running_iff (r : Slot) (calls : List OtaCall) (m : Machine) :
    Run.Always (OtaCall.after host) (SparesSlot host r) calls m ↔
      Run.Always (OtaCall.after host) (CopiesFrom r) calls m :=
  Run.always_congr (sparesSlot_iff r) calls m

/-- An update of the boot image. -/
def bootUpdateArgs : UpdateArgs :=
  ⟨some "/userdata/update.tar", some "/userdata/temp", some "boot", none⟩

/-- Nothing fails in it. -/
def bootUpdateAnswers : MiscUpdateAnswers where
  system := fun _ _ => (0, fun url => if url = "/userdata/temp/boot.img" then some [1] else none)
  read := .filled
  access := fun _ => true
  image := fun _ => ⟨true, 0, fun d => d.overwrite 0 [1], 0, true⟩
  activity := ⟨.filled, .stored⟩

/-- The same update made twice without a reboot writes the running boot partition. -/
theorem updates_not_spare_running :
    ¬ ∀ (host : Endian) (r : Slot) (calls : List OtaCall) (m : Machine), m.record.Selects r →
        Run.Always (OtaCall.after host) (SparesSlot host r) calls m := by
  intro h
  let bootUpdate := OtaCall.miscUpdate bootUpdateArgs bootUpdateAnswers
  have hall := h .little .a [bootUpdate, bootUpdate] (deviceOn .a) (by decide)
  let m := bootUpdate.after .little (deviceOn .a)
  have hissued : m.Issued (bootUpdate.after .little m)
      (.copyImage "/userdata/temp/boot.img" "/dev/block/by-name/boot_a") :=
    ⟨(bootUpdate.after .little m).journal.drop m.journal.length, by decide +kernel, by decide +kernel⟩
  exact hall.2.1 _ _ hissued (by decide)

end LinuxOta.Bootloader
