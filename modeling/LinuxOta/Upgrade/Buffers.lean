-- SUMMARY: The command and path strings of the two update functions, against the arrays they are formatted into.
import LinuxOta.Upgrade.Init
import LinuxOta.Upgrade.Packet
import LinuxOta.Ota.MiscUpdate

namespace LinuxOta

/-! # Strings and their buffers

A `Char` stands for one byte, so that the lengths of texts are those of `strlen`. -/

/-- The text a `sprintf` makes, and the size of the array it is meant for. -/
structure Formatted where
  text : String
  size : Nat
  deriving DecidableEq, Repr

/-- The array holds the text and its terminating zero. -/
def Formatted.Fits (f : Formatted) : Prop := f.text.toList.length + 1 ≤ f.size

instance (f : Formatted) : Decidable f.Fits := inferInstanceAs (Decidable (_ ≤ _))

/-- No text outgrows its array. -/
def AllFit (fs : List Formatted) : Prop := ∀ f ∈ fs, f.Fits

theorem Part.name_length_le (p : Part) : p.name.toList.length ≤ 6 := by
  cases p <;> decide

@[simp]
theorem AllFit.nil : AllFit [] := fun _ h => absurd h List.not_mem_nil

theorem allFit_cons {f : Formatted} {fs : List Formatted} : AllFit (f :: fs) ↔ f.Fits ∧ AllFit fs := by
  simp [AllFit]

theorem allFit_append {fs gs : List Formatted} : AllFit (fs ++ gs) ↔ AllFit fs ∧ AllFit gs := by
  simp [AllFit, or_imp, forall_and]

/-- Both functions unpack with this command. -/
theorem unpack_fits_iff (archive dir : String) :
    Formatted.Fits ⟨"tar -xf " ++ archive ++ " -C " ++ dir, 128⟩ ↔
      archive.toList.length + dir.toList.length ≤ 115 := by
  have htar : "tar -xf ".toList.length = 8 := by decide
  have hdir : " -C ".toList.length = 4 := by decide
  simp only [Formatted.Fits, String.toList_append, List.length_append, htar, hdir]
  omega

namespace Upgrade

/-! ## rk_upgrade_packet -/

section
variable (g : FlashCtrl)

/-- What is formatted in the loop over the images, and in `upgrade_partition`. -/
def partitionsFormats (image : Part → ImageAnswers) (dir : String) (slot : Slot) :
    List Part → Machine → List Formatted
  | [], _ => []
  | p :: ps, m =>
    ⟨destPath p slot.other, 128⟩ :: ⟨srcPath dir p, 128⟩ ::
      let (ret, m) := partition g (image p) dir p (destPath p slot.other) m
      if ret < 0 then [] else partitionsFormats image dir slot ps m

/-- What is formatted in `rk_upgrade_packet`. -/
def packetFormats (ctrl : UpgradeCtrl) (a : PacketAnswers) (packet : Option String) (m : Machine) :
    List Formatted :=
  match packet with
  | none => []
  | some packet =>
    if !ctrl.isInit then []
    else if !a.realpath then []
    else match AbMeta.getRunningSlot a.cmdline m with
      | none => []
      | some slot =>
        if !a.accessTemp then []
        else
          let cmd := unpackCmd ctrl packet
          let (status, files) := a.system cmd m.files
          let m := { m with files := files }.log (.system cmd)
          ⟨cmd, 128⟩ ::
            if status < 0 then [] else partitionsFormats g a.image ctrl.tempDir slot partNames m

end

section
variable {g : FlashCtrl} {ctrl : UpgradeCtrl} {a : PacketAnswers} {m : Machine} {packet : String}
  {slot : Slot}

theorem destPath_fits (p : Part) (s : Slot) : Formatted.Fits ⟨destPath p s, 128⟩ := by
  cases p <;> cases s <;> decide

theorem srcPath_fits {dir : String} (hdir : dir.toList.length ≤ 115) (p : Part) :
    Formatted.Fits ⟨srcPath dir p, 128⟩ := by
  have hname := p.name_length_le
  have hslash : "/".toList.length = 1 := by decide
  have himg : ".img".toList.length = 4 := by decide
  simp only [Formatted.Fits, srcPath, String.toList_append, List.length_append, hslash, himg]
  omega

/-- The paths fit wherever the command does. -/
theorem partitionsFormats_allFit {dir : String} (hdir : dir.toList.length ≤ 115)
    (image : Part → ImageAnswers) (ps : List Part) :
    AllFit (partitionsFormats g image dir slot ps m) := by
  induction ps generalizing m with
  | nil => exact .nil
  | cons p ps ih =>
    unfold partitionsFormats
    refine allFit_cons.mpr ⟨destPath_fits p _, allFit_cons.mpr ⟨srcPath_fits hdir p, ?_⟩⟩
    dsimp only
    split
    · exact .nil
    · exact ih

/-- A call formats nothing before its checks, and then the command first. -/
theorem packetFormats_allFit_iff (hinit : ctrl.isInit = true) :
    AllFit (packetFormats g ctrl a (some packet) m) ↔
      (a.realpath = true → (AbMeta.getRunningSlot a.cmdline m).isSome → a.accessTemp = true →
        packet.toList.length + ctrl.tempDir.toList.length ≤ 115) := by
  simp only [packetFormats, hinit, Bool.not_true, Bool.false_eq_true, ↓reduceIte]
  cases hreal : a.realpath with
  | false => simp
  | true =>
    cases hslot : AbMeta.getRunningSlot a.cmdline m with
    | none => simp
    | some slot =>
      cases htemp : a.accessTemp with
      | false => simp
      | true =>
        have hcommand : Formatted.Fits ⟨unpackCmd ctrl packet, 128⟩ ↔
            packet.toList.length + ctrl.tempDir.toList.length ≤ 115 := unpack_fits_iff packet ctrl.tempDir
        simp only [Bool.not_true, Bool.false_eq_true, ↓reduceIte, Option.isSome_some, forall_const]
        rw [allFit_cons, hcommand, and_iff_left_iff_imp]
        intro hlen
        split
        · exact .nil
        · exact partitionsFormats_allFit (by omega) a.image partNames

/-- The shell is handed no other command than the one formatted. -/
theorem packet_command_formatted {host : Endian} {p : Option String} {cmd : String}
    (h : m.Issued (Upgrade.packet g host ctrl a p m).2 (.system cmd)) :
    ⟨cmd, 128⟩ ∈ packetFormats g ctrl a p m := by
  obtain ⟨ret, acts, devs, hrun, -, hperf, -⟩ := packet_run g host ctrl a m p
  have hmem := (hperf.issued_iff rfl).mp h
  have himages : ∀ {slot files ret₀ acts ret devs},
      ImagesRun g a.image ctrl.tempDir slot files partNames ret₀ m.devs acts ret devs →
      .system cmd ∉ acts := by
    intro slot files ret₀ acts ret devs himages hcmd
    obtain ⟨p, hp⟩ := himages.target_of_mem hcmd
    cases hp
  have hhanded : .system cmd ∉ handedActs (a.activate.switched g m) := by
    cases a.activate.switched g m <;> simp [handedActs]
  have hstarted : ∃ q slot, p = some q ∧ a.Starts ctrl m slot ∧ cmd = unpackCmd ctrl q := by
    cases hrun with
    | refused _ => exact absurd hmem List.not_mem_nil
    | @notUnpacked q slot hstarts _ => exact ⟨q, slot, rfl, hstarts, by simpa using hmem⟩
    | @imageFailed q slot _ _ _ hstarts _ hrun _ =>
      exact ⟨q, slot, rfl, hstarts, by simpa [himages hrun] using hmem⟩
    | @finished q slot _ _ _ hstarts _ hrun _ =>
      exact ⟨q, slot, rfl, hstarts, by simpa [himages hrun, hhanded] using hmem⟩
  obtain ⟨q, slot, rfl, hstarts, rfl⟩ := hstarted
  simp [packetFormats, hstarts.isInit, hstarts.realpath, hstarts.cmdline, hstarts.accessTemp]

end

/-- A call of `rk_upgrade_init` that succeeds leaves the module initialised. -/
theorem rkUpgradeInit_isInit {a : InitAnswers} {ctrl : UpgradeDirs} {backupDir tempDir : Option String}
    (h : (rkUpgradeInit a ctrl backupDir tempDir).1 = 0) :
    (rkUpgradeInit a ctrl backupDir tempDir).2.isInit = true := by
  unfold rkUpgradeInit at h ⊢
  grind

end Upgrade

namespace Bootloader

/-! ## miscUpdate -/

section
variable (a : MiscUpdateAnswers)

/-- What is formatted for an image. The paths of the named partitions are formatted before. -/
def siteFormats (imageDir : String) (slot : Slot) : Site → List Formatted
  | .part p => [⟨Site.srcPath (.part p) imageDir, 64⟩]
  | .extra name => [⟨Site.destPath (.extra name) slot.other, 64⟩, ⟨Site.srcPath (.extra name) imageDir, 64⟩]

/-- What is formatted in the part of `flash_write` that writes the images. -/
def flashWriteImagesFormats (imageDir : String) (slot : Slot) : List Site → Machine → List Formatted
  | [], _ => []
  | site :: sites, m =>
    siteFormats imageDir slot site ++
      if a.access site && (m.files (site.srcPath imageDir)).isSome then
        let (ret, m) :=
          flashWritePartition (a.image site) (site.srcPath imageDir) (site.destPath slot.other) m
        if ret ≠ 0 then [] else flashWriteImagesFormats imageDir slot sites m
      else flashWriteImagesFormats imageDir slot sites m

/-- What is formatted in `flash_write`. -/
def flashWriteFormats (imageDir partition : String) (extraPartition : Option String) (m : Machine) :
    List Formatted :=
  match readABMisc a.read m with
  | (none, _) => []
  | (some info, m) =>
    match getCurrentSlot info with
    | none => []
    | some slot =>
      match partsNamed partition with
      | none => []
      | some parts =>
        parts.map (fun p => ⟨Site.destPath (.part p) slot.other, 64⟩) ++
          flashWriteImagesFormats a imageDir slot (parts.map .part ++ (extraPartition.map .extra).toList) m

/-- What is formatted in `miscUpdate`. -/
def miscUpdateFormats (tarPath saveDir updatePartition extraPartition : Option String) (m : Machine) :
    List Formatted :=
  match tarPath with
  | none => []
  | some tarPath =>
    let savedir := saveDirectory saveDir
    let partition := updatePartition.getD "all"
    let cmd := "tar -xf " ++ tarPath ++ " -C " ++ savedir
    let (status, files) := a.system cmd m.files
    let m := { m with files := files }.log (.system cmd)
    ⟨partition, 16⟩ :: ⟨cmd, 128⟩ ::
      if status ≠ 0 then [] else flashWriteFormats a savedir partition extraPartition m

end

/-- The paths of an image fit, if its names are as short as this. -/
def SiteFits (imageDir : String) : Site → Prop
  | .part p => imageDir.toList.length + p.name.toList.length ≤ 58
  | .extra name => name.toList.length ≤ 42 ∧ imageDir.toList.length + name.toList.length ≤ 58

/-- The lengths that leave every string of `miscUpdate` within its array. -/
structure UpdateFits (tarPath savedir partition : String) (extraPartition : Option String) : Prop where
  name : partition.toList.length ≤ 15
  command : tarPath.toList.length + savedir.toList.length ≤ 115
  images : ∀ parts, partsNamed partition = some parts →
    ∀ site ∈ parts.map Site.part ++ (extraPartition.map Site.extra).toList, SiteFits savedir site

theorem Site.srcPath_length (site : Site) (imageDir : String) :
    (site.srcPath imageDir).toList.length = imageDir.toList.length + site.name.toList.length + 5 := by
  have hslash : "/".toList.length = 1 := by decide
  have himg : ".img".toList.length = 4 := by decide
  simp only [Site.srcPath, String.toList_append, List.length_append]
  rw [hslash, himg]
  omega

theorem Site.destPath_length (site : Site) (s : Slot) :
    (site.destPath s).toList.length = site.name.toList.length + 21 := by
  have hdev : "/dev/block/by-name/".toList.length = 19 := by decide
  have hpath : (site.destPath s).toList = ("/dev/block/by-name/" ++ site.name).toList ++ ['_', s.suffix] :=
    toList_suffixed _ s
  rw [hpath, List.length_append, String.toList_append, List.length_append, hdev, List.length_cons,
    List.length_singleton]
  omega

theorem siteFormats_allFit_iff {imageDir : String} (slot : Slot) (site : Site) :
    AllFit (siteFormats imageDir slot site) ↔ SiteFits imageDir site := by
  cases site with
  | part p =>
    simp only [siteFormats, allFit_cons, AllFit.nil, and_true, Formatted.Fits, Site.srcPath_length, SiteFits,
      Site.name]
    omega
  | extra name =>
    simp only [siteFormats, allFit_cons, AllFit.nil, and_true, Formatted.Fits, Site.srcPath_length,
      Site.destPath_length, SiteFits, Site.name]
    omega

theorem Site.destPath_part_fits (p : Part) (s : Slot) :
    Formatted.Fits ⟨Site.destPath (.part p) s, 64⟩ := by
  have hname := p.name_length_le
  simp only [Formatted.Fits, Site.destPath_length, Site.name]
  omega

/-- The partitions of the named images have short paths. -/
theorem dests_fit (parts : List Part) (s : Slot) :
    AllFit (parts.map fun p => ⟨Site.destPath (.part p) s, 64⟩) := by
  intro f hf
  obtain ⟨p, -, rfl⟩ := List.mem_map.mp hf
  exact Site.destPath_part_fits p s

section
variable {a : MiscUpdateAnswers} {imageDir : String} {slot : Slot}

/-- Whatever images are reached, their paths fit. -/
theorem flashWriteImagesFormats_allFit {sites : List Site} (h : ∀ site ∈ sites, SiteFits imageDir site)
    (m : Machine) : AllFit (flashWriteImagesFormats a imageDir slot sites m) := by
  induction sites generalizing m with
  | nil => exact .nil
  | cons site sites ih =>
    have hsite := (siteFormats_allFit_iff slot site).mpr (h site List.mem_cons_self)
    have hrest := ih fun site' hmem => h site' (List.mem_cons_of_mem _ hmem)
    unfold flashWriteImagesFormats
    refine allFit_append.mpr ⟨hsite, ?_⟩
    dsimp only
    split
    · split
      · exact .nil
      · exact hrest _
    · exact hrest _

/-- When no image is there, all paths are formatted. -/
theorem flashWriteImagesFormats_absent (habsent : ∀ site, a.access site = false) (sites : List Site)
    (m : Machine) :
    flashWriteImagesFormats a imageDir slot sites m = sites.flatMap (siteFormats imageDir slot) := by
  induction sites with
  | nil => rfl
  | cons site sites ih => simp [flashWriteImagesFormats, habsent, ih]

theorem flashWriteFormats_allFit {partition : String} {extraPartition : Option String}
    (h : ∀ parts, partsNamed partition = some parts →
      ∀ site ∈ parts.map Site.part ++ (extraPartition.map Site.extra).toList, SiteFits imageDir site)
    (m : Machine) : AllFit (flashWriteFormats a imageDir partition extraPartition m) := by
  unfold flashWriteFormats
  split
  · exact .nil
  · split
    · exact .nil
    · split
      · exact .nil
      · next parts hparts =>
        exact allFit_append.mpr ⟨dests_fit parts _, flashWriteImagesFormats_allFit (h parts hparts) _⟩

end

/-- Unpacking succeeds and brings no image. -/
def MiscUpdateAnswers.absent : MiscUpdateAnswers where
  system := fun _ files => (0, files)
  read := .filled
  access := fun _ => false
  image := fun _ => ⟨false, 0, id, 0, false⟩
  activity := ⟨.filled, .stored⟩

/-- The run in which no image is there formats everything. -/
theorem flashWriteFormats_absent {imageDir partition : String} {extraPartition : Option String}
    {m : Machine} {slot : Slot} {parts : List Part} (hslot : getCurrentSlot m.record = some slot)
    (hparts : partsNamed partition = some parts) :
    flashWriteFormats .absent imageDir partition extraPartition m =
      parts.map (fun p => ⟨Site.destPath (.part p) slot.other, 64⟩) ++
        (parts.map Site.part ++ (extraPartition.map Site.extra).toList).flatMap (siteFormats imageDir slot) := by
  have habsent : ∀ site, MiscUpdateAnswers.absent.access site = false := fun _ => rfl
  have hslot' : getCurrentSlot (m.log (.flashRead miscPath metaDataOffset 32)).record = some slot := hslot
  have hread : readABMisc MiscUpdateAnswers.absent.read m =
      (some (m.log (.flashRead miscPath metaDataOffset 32)).record,
        m.log (.flashRead miscPath metaDataOffset 32)) := rfl
  simp only [flashWriteFormats, hread, hslot', hparts, flashWriteImagesFormats_absent habsent]

/-- Every run stays within the arrays, exactly when the arguments are short enough. -/
theorem miscUpdateFormats_allFit_iff (tarPath saveDir updatePartition extraPartition : Option String) :
    (∀ a m, AllFit (miscUpdateFormats a tarPath saveDir updatePartition extraPartition m)) ↔
      ∀ path, tarPath = some path →
        UpdateFits path (saveDirectory saveDir) (updatePartition.getD "all") extraPartition := by
  constructor
  · rintro h path rfl
    have hfit := h .absent (deviceOn .a)
    have hslot : getCurrentSlot (deviceOn .a).record = some .a := by decide +kernel
    obtain ⟨hname, hrest⟩ := allFit_cons.mp hfit
    obtain ⟨hcommand, hwrite⟩ := allFit_cons.mp hrest
    refine ⟨Nat.le_of_succ_le_succ hname, (unpack_fits_iff _ _).mp hcommand, ?_⟩
    intro parts hparts site hsite
    rw [if_neg fun h => h rfl] at hwrite
    have hlogged : getCurrentSlot ((deviceOn .a).log (.system
        ("tar -xf " ++ path ++ " -C " ++ saveDirectory saveDir))).record = some .a := hslot
    change AllFit (flashWriteFormats .absent _ _ _ ((deviceOn .a).log (.system _))) at hwrite
    rw [flashWriteFormats_absent hlogged hparts] at hwrite
    refine (siteFormats_allFit_iff .a site).mp fun f hf => ?_
    exact (allFit_append.mp hwrite).2 f (List.mem_flatMap.mpr ⟨site, hsite, hf⟩)
  · intro h a m
    cases tarPath with
    | none => exact .nil
    | some path =>
      obtain ⟨hname, hcommand, himages⟩ := h path rfl
      refine allFit_cons.mpr ⟨Nat.succ_le_succ hname, allFit_cons.mpr
        ⟨(unpack_fits_iff _ _).mpr hcommand, ?_⟩⟩
      split
      · exact .nil
      · exact flashWriteFormats_allFit himages _

end Bootloader

/-! ## Both -/

/-- After a successful `rk_upgrade_init`, the strings of `rk_upgrade_packet` fit their arrays if and
only if the packet path and the stored directory have together at most 115 characters, or a check
fails before; those of `miscUpdate` fit in every run if and only if its arguments are this short. -/
theorem strings_fit_iff (b : Upgrade.InitAnswers) (dirs : Upgrade.UpgradeDirs)
    (backupDir tempDir : Option String) (hinit : (Upgrade.rkUpgradeInit b dirs backupDir tempDir).1 = 0)
    (g : FlashCtrl) (a : Upgrade.PacketAnswers) (packet : Option String) (m : Machine)
    (tarPath saveDir updatePartition extraPartition : Option String) :
    (AllFit (Upgrade.packetFormats g (Upgrade.rkUpgradeInit b dirs backupDir tempDir).2.toUpgradeCtrl a
        packet m) ↔
      ∀ path, packet = some path → a.realpath = true → (AbMeta.getRunningSlot a.cmdline m).isSome →
        a.accessTemp = true →
        path.toList.length +
          (Upgrade.rkUpgradeInit b dirs backupDir tempDir).2.tempDir.toList.length ≤ 115) ∧
    ((∀ a m, AllFit (Bootloader.miscUpdateFormats a tarPath saveDir updatePartition extraPartition m)) ↔
      ∀ path, tarPath = some path →
        Bootloader.UpdateFits path (Bootloader.saveDirectory saveDir) (updatePartition.getD "all")
          extraPartition) := by
  refine ⟨?_, Bootloader.miscUpdateFormats_allFit_iff tarPath saveDir updatePartition extraPartition⟩
  cases packet with
  | none => exact iff_of_true .nil fun _ h => nomatch h
  | some path =>
    rw [Upgrade.packetFormats_allFit_iff (Upgrade.rkUpgradeInit_isInit hinit)]
    exact ⟨fun h p hp => Option.some.inj hp ▸ h, fun h => h path rfl⟩

/-- The upgrade module after a call of `rk_upgrade_init`. -/
def Upgrade.initialised : UpgradeCtrl :=
  (rkUpgradeInit .plain ⟨⟨false, ""⟩, ""⟩ (some "/userdata/b") (some "/userdata/t")).2.toUpgradeCtrl

theorem strings_fit_userdata :
    AllFit (Upgrade.packetFormats Upgrade.smallFlash Upgrade.initialised
      (.faultless "/userdata/t" fun _ => none) (some "/userdata/update.tar") (deviceOn .a)) ∧
    ∀ a m, AllFit (Bootloader.miscUpdateFormats a (some "/userdata/update.tar") none (some "boot") none m) := by
  obtain ⟨hpacket, hupdate⟩ := strings_fit_iff .plain ⟨⟨false, ""⟩, ""⟩ (some "/userdata/b")
    (some "/userdata/t") (by decide) Upgrade.smallFlash (.faultless "/userdata/t" fun _ => none)
    (some "/userdata/update.tar") (deviceOn .a) (some "/userdata/update.tar") none (some "boot") none
  constructor
  · refine hpacket.mpr ?_
    rintro path ⟨⟩ - - -
    decide
  · refine hupdate.mpr ?_
    rintro path ⟨⟩
    refine ⟨by decide, by decide, ?_⟩
    rintro parts hparts site hsite
    obtain rfl : parts = [.boot] := Option.some.inj (hparts.symm.trans (by decide))
    obtain rfl := List.mem_singleton.mp hsite
    have hlen : "/mnt/sdcard/rk_update".toList.length + Part.boot.name.toList.length ≤ 58 := by decide
    exact hlen

/-- A packet whose path has 128 characters, and a partition named with 16. -/
theorem strings_overflow :
    ¬ AllFit (Upgrade.packetFormats Upgrade.smallFlash Upgrade.initialised
      (.faultless "/userdata/t" fun _ => none)
      (some ("/userdata/" ++ String.ofList (List.replicate 118 'p'))) (deviceOn .a)) ∧
    ¬ AllFit (Bootloader.miscUpdateFormats .absent (some "/userdata/update.tar") none
      (some "systemsystemsyst") none (deviceOn .a)) := by
  constructor
  · intro h
    have hlen := (Upgrade.packetFormats_allFit_iff (by decide)).mp h rfl (by decide +kernel) rfl
    have hpath : ("/userdata/" ++ String.ofList (List.replicate 118 'p')).toList.length = 128 := by
      decide +kernel
    rw [hpath] at hlen
    omega
  · intro h
    exact absurd (h ⟨"systemsystemsyst", 16⟩ List.mem_cons_self) (by decide)

end LinuxOta
