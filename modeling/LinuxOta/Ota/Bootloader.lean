-- SUMMARY: `bootloader.c` of ota: confirming the boot slot, ordering the switch, and the update that writes the other slot.
import LinuxOta.AbMeta.Meta

namespace LinuxOta

/-! # bootloader.c -/

/-- The macros `setSlotSucceed` looks at. `CMakeLists.txt` defines neither. -/
structure Build where
  /-- `SUCCESSFUL_BOOT`. -/
  successfulBoot : Bool
  /-- `RETRY_BOOT`. -/
  retryBoot : Bool
  deriving DecidableEq, Repr

namespace Bootloader

/-! ## The record -/

/-- How `readMisc` ends, on a block device or on MTD. Where the block device is read is another
answer: `fseek` may fail unnoticed. -/
inductive MiscReadAnswer where
  | filled
  /-- -1 is returned, and the buffer is not looked at. -/
  | failed
  deriving DecidableEq, Repr

/-- How `writeMisc` ends, on a block device or on MTD. -/
inductive MiscWriteAnswer where
  | stored
  /-- -1 is returned before anything was written. -/
  | notOpened
  /-- -1 is returned, and this is left of the content. On MTD the whole partition is
  rewritten. -/
  | failed (left : Content → Content)

/-- `readABMisc` with the position of misc at `pos`; -1 is `none`. -/
def readABMiscAt (pos : Nat) (a : MiscReadAnswer) (m : Machine) : Option AbData × Machine :=
  let m := m.log (.flashRead miscPath pos 32)
  match a with
  | .filled => (some (AbData.ofBytes ((m.devs miscPath).read pos 32)), m)
  | .failed => (none, m)

/-- `writeABMisc` with the position of misc at `pos`. -/
def writeABMiscAt (pos : Nat) (a : MiscWriteAnswer) (info : AbData) (m : Machine) : Int × Machine :=
  match a with
  | .stored => (0, (m.log (.flashWrite miscPath pos info.toBytes)).store miscPath pos info.toBytes)
  | .notOpened => (-1, m)
  | .failed left =>
    let m := m.log (.flashWrite miscPath pos info.toBytes)
    (-1, m.withDev miscPath (left (m.devs miscPath)))

/-- `readABMisc`, when no `fseek` fails. -/
def readABMisc (a : MiscReadAnswer) (m : Machine) : Option AbData × Machine :=
  readABMiscAt metaDataOffset a m

/-- `writeABMisc`, when no `fseek` fails. -/
def writeABMisc (a : MiscWriteAnswer) (info : AbData) (m : Machine) : Int × Machine :=
  writeABMiscAt metaDataOffset a info m

/-- What the calls made by an operation on the record answer, when no `fseek` fails. -/
structure SlotAnswers where
  read : MiscReadAnswer
  write : MiscWriteAnswer

/-- The position after `fseek`, whose result `readMisc_block` and `writeMisc_block` do not look
at. -/
def seekPos (seek : Bool) : Nat := if seek then metaDataOffset else 0

/-- What the calls made by an operation on the record answer. -/
structure SeekAnswers extends SlotAnswers where
  /-- `fseek` in `readMisc_block` does not fail. On MTD there is none. -/
  readSeek : Bool
  /-- The same in `writeMisc_block`. -/
  writeSeek : Bool

end Bootloader

/-- The assignments with which `setSlotSucceed` confirms slot `nowSlot`. -/
def AbData.confirm (build : Build) (info : AbData) (nowSlot : Slot) : AbData :=
  let v := info.slots nowSlot
  let v := if v.priority ≠ maxPriority then { v with priority := maxPriority } else v
  let v := if build.successfulBoot then { v with triesRemaining := 0, successfulBoot := 1 } else v
  let v := if build.retryBoot then { v with triesRemaining := maxTriesRemaining, successfulBoot := 0 } else v
  (info.setSlot nowSlot v).setLastBoot nowSlot.index

namespace Bootloader

section
variable (host : Endian) {τ : Type} (read : τ → Option AbData × τ) (write : AbData → τ → Int × τ)

/-- `setSlotSucceed`, over any `readABMisc` and `writeABMisc`. -/
def setSlotSucceedBy (build : Build) (s : τ) : Int × τ :=
  match read s with
  | (none, s) => (-1, s)
  | (some info, s) =>
    match getCurrentSlot info with
    | none => (-1, s)
    | some nowSlot =>
      -- "Magic is incorrect": `return false`, which is 0
      if info.magic ≠ abMagic then (0, s)
      else
        let info := avbUpdateCrc host (info.confirm build nowSlot)
        let (ret, s) := write info s
        if ret ≠ 0 then (-1, s) else (0, s)

/-- `setSlotActivity`, over any `readABMisc` and `writeABMisc`. -/
def setSlotActivityBy (s : τ) : Int × τ :=
  match read s with
  | (none, s) => (-1, s)
  | (some info, s) =>
    match getCurrentSlot info with
    | none => (-1, s)
    | some nowSlot =>
      let info := avbUpdateCrc host (info.switchFrom nowSlot)
      let (ret, s) := write info s
      if ret ≠ 0 then (-1, s) else (0, s)

end

section
variable (host : Endian)

/-- `setSlotSucceed`. -/
def setSlotSucceedSeeking (build : Build) (a : SeekAnswers) (m : Machine) : Int × Machine :=
  setSlotSucceedBy host (readABMiscAt (seekPos a.readSeek) a.read)
    (writeABMiscAt (seekPos a.writeSeek) a.write) build m

/-- `setSlotSucceed`, when no `fseek` fails. -/
def setSlotSucceed (build : Build) (a : SlotAnswers) (m : Machine) : Int × Machine :=
  setSlotSucceedBy host (readABMisc a.read) (writeABMisc a.write) build m

/-- `setSlotActivity`, when no `fseek` fails. -/
def setSlotActivity (a : SlotAnswers) (m : Machine) : Int × Machine :=
  setSlotActivityBy host (readABMisc a.read) (writeABMisc a.write) m

end

/-! ## Writing the images -/

/-- What the calls made by `flash_write_partition` answer. -/
structure ImageWriteAnswers where
  stat : Bool
  /-- What `block_write` or `mtd_write` returns. -/
  write : Int
  /-- What it leaves of the content of the partition. -/
  left : Content → Content
  /-- What `comparefile` returns. -/
  compare : Int
  remove : Bool

/-- `flash_write_partition`. -/
def flashWritePartition (a : ImageWriteAnswers) (srcPath destPath : String) (m : Machine) :
    Int × Machine :=
  if !(a.stat && (m.files srcPath).isSome) then (-1, m)
  else
    let m := m.log (.copyImage srcPath destPath)
    let m := m.withDev destPath (a.left (m.devs destPath))
    if a.write ≠ 0 then (a.write, m)
    else if a.compare ≠ 0 then (a.compare, m)
    else (0, if a.remove then (m.unlink srcPath).log (.removed srcPath) else m)

/-- The images `flash_write` may write. -/
inductive Site where
  | part (p : Part)
  /-- The `extra_partition` of the caller. -/
  | extra (name : String)
  deriving DecidableEq, Repr

def Site.name : Site → String
  | part p => p.name
  | extra name => name

/-- `"/dev/block/by-name/%s_%c"`. -/
def Site.destPath (site : Site) (s : Slot) : String :=
  "/dev/block/by-name/" ++ site.name ++ "_" ++ s.suffix.toString

/-- `"%s/%s.img"`. -/
def Site.srcPath (site : Site) (imageDir : String) : String :=
  imageDir ++ "/" ++ site.name ++ ".img"

/-- The images named by `partition`, or `none` for "Invalid parameter setting". -/
def partsNamed (partition : String) : Option (List Part) :=
  if partition = "all" then some [.uboot, .boot, .system]
  else if partition = Part.uboot.name then some [.uboot]
  else if partition = Part.boot.name then some [.boot]
  else if partition = Part.system.name then some [.system]
  else none

/-- What the calls made by `miscUpdate` answer. -/
structure MiscUpdateAnswers where
  /-- The status of a shell command and the files it leaves. -/
  system : String → (String → Option Bytes) → Int × (String → Option Bytes)
  read : MiscReadAnswer
  access : Site → Bool
  image : Site → ImageWriteAnswers
  activity : SlotAnswers

section
variable (a : MiscUpdateAnswers)

/-- The part of `flash_write` that writes the images, in their order. -/
def flashWriteImages (imageDir : String) (slot : Slot) : List Site → Machine → Int × Machine
  | [], m => (0, m)
  | site :: sites, m =>
    if a.access site && (m.files (site.srcPath imageDir)).isSome then
      let (ret, m) :=
        flashWritePartition (a.image site) (site.srcPath imageDir) (site.destPath slot.other) m
      if ret ≠ 0 then (-1, m) else flashWriteImages imageDir slot sites m
    else flashWriteImages imageDir slot sites m

/-- `flash_write`. -/
def flashWrite (imageDir partition : String) (extraPartition : Option String) (m : Machine) :
    Int × Machine :=
  match readABMisc a.read m with
  | (none, m) => (-1, m)
  | (some info, m) =>
    match getCurrentSlot info with
    | none => (-1, m)
    | some slot =>
      match partsNamed partition with
      | none => (-1, m)
      | some parts =>
        flashWriteImages a imageDir slot (parts.map .part ++ (extraPartition.map .extra).toList) m

/-- `UPDATE_TAR_DIRECTRY`. -/
def updateTarDirectory : String := "/mnt/sdcard/rk_update"

/-- `savedir`, as `snprintf` cuts it off. -/
def saveDirectory (saveDir : Option String) : String :=
  String.ofList ((saveDir.getD updateTarDirectory).toList.take 63)

/-- `miscUpdate`. Null pointers are `none`. The directory it may create is not modelled. -/
def miscUpdate (host : Endian) (tarPath saveDir updatePartition extraPartition : Option String)
    (m : Machine) : Int × Machine :=
  match tarPath with
  | none => (-1, m)
  | some tarPath =>
    let savedir := saveDirectory saveDir
    let partition := updatePartition.getD "all"
    let cmd := "tar -xf " ++ tarPath ++ " -C " ++ savedir
    let (status, files) := a.system cmd m.files
    let m := { m with files := files }.log (.system cmd)
    if status ≠ 0 then (-1, m)
    else
      let (ret, m) := flashWrite a savedir partition extraPartition m
      if ret ≠ 0 then (-1, m)
      else
        let (ret, m) := setSlotActivity host a.activity m
        if ret ≠ 0 then (-1, m) else (0, m)

end

/-! ## What the operations on the record do -/

/-- The write at the end of an operation on the record. -/
def MiscWriteAnswer.onRecord : MiscWriteAnswer → RecordWrite
  | stored => ⟨0, fun b misc => misc.overwrite metaDataOffset b⟩
  | notOpened => ⟨-1, fun _ misc => misc⟩
  | failed left => ⟨-1, fun _ misc => left misc⟩

/-- The misc partition is opened for writing. -/
def MiscWriteAnswer.opened : MiscWriteAnswer → Bool
  | notOpened => false
  | _ => true

namespace SlotAnswers

/-- The record `setSlotActivity` hands to the write. -/
def switched (a : SlotAnswers) (m : Machine) : Option AbData :=
  if a.read = .filled ∧ a.write.opened then
    (getCurrentSlot m.record).map fun nowSlot => (m.record.switchFrom nowSlot).refreshCrc
  else none

/-- The record `setSlotSucceed` hands to the write. -/
def confirmed (a : SlotAnswers) (build : Build) (m : Machine) : Option AbData :=
  if a.read = .filled ∧ a.write.opened ∧ m.record.magic = abMagic then
    (getCurrentSlot m.record).map fun nowSlot => (m.record.confirm build nowSlot).refreshCrc
  else none

end SlotAnswers

variable {host : Endian} {a : SlotAnswers} {m : Machine}

theorem readABMisc_filled {read : MiscReadAnswer} (h : read = .filled) :
    readABMisc read m = (some m.record, m.log (.flashRead miscPath metaDataOffset 32)) := by
  rw [h]
  rfl

theorem readABMisc_failed {read : MiscReadAnswer} (h : read ≠ .filled) :
    readABMisc read m = (none, m.log (.flashRead miscPath metaDataOffset 32)) := by
  cases read with
  | filled => exact absurd rfl h
  | failed => rfl

/-- The end of the two operations: the record is written, and every failure reported
as -1. -/
theorem writeABMisc_effect {info : AbData} :
    RecordEffect a.write.onRecord (if a.write.opened then some info else none) m
      (let (ret, m) := writeABMisc a.write info m
       if ret ≠ 0 then (-1, m) else (0, m)) := by
  cases hwrite : a.write with
  | stored =>
    refine ⟨⟨⟨rfl, [.flashWrite miscPath metaDataOffset info.toBytes], rfl, rfl⟩, ?_, rfl⟩, rfl⟩
    simp [writeABMisc, writeABMiscAt, handedMisc, MiscWriteAnswer.onRecord, MiscWriteAnswer.opened, Machine.store]
  | notOpened => exact ⟨⟨.refl m, by simp [handedMisc, writeABMisc, writeABMiscAt, MiscWriteAnswer.opened], rfl⟩, rfl⟩
  | failed left =>
    refine ⟨⟨⟨rfl, [.flashWrite miscPath metaDataOffset info.toBytes], rfl, rfl⟩, ?_, rfl⟩, rfl⟩
    simp [writeABMisc, writeABMiscAt, handedMisc, MiscWriteAnswer.onRecord, MiscWriteAnswer.opened,
      Machine.withDev]

private theorem readEvent_silent :
    ∀ e ∈ [Event.flashRead miscPath metaDataOffset 32], e.acts = false := by
  simp [Event.acts]

variable (host) in
theorem setSlotActivity_effect :
    RecordEffect a.write.onRecord (a.switched m) m (setSlotActivity host a m) := by
  by_cases hread : a.read = .filled
  swap
  · have hnone : a.switched m = none := if_neg fun h => hread h.1
    have hres : setSlotActivity host a m = (-1, m.log (.flashRead miscPath metaDataOffset 32)) := by
      simp only [setSlotActivity, setSlotActivityBy, readABMisc_failed hread]
    rw [hnone, hres]
    exact .gives_up readEvent_silent
  cases hslot : getCurrentSlot m.record with
  | none =>
    have hnone : a.switched m = none := by simp [SlotAnswers.switched, hslot]
    have hres : setSlotActivity host a m = (-1, m.log (.flashRead miscPath metaDataOffset 32)) := by
      simp only [setSlotActivity, setSlotActivityBy, readABMisc_filled hread, hslot]
    rw [hnone, hres]
    exact .gives_up readEvent_silent
  | some nowSlot =>
    have hsome : a.switched m =
        if a.write.opened then some (m.record.switchFrom nowSlot).refreshCrc else none := by
      simp [SlotAnswers.switched, hread, hslot]
    rw [hsome]
    simp only [setSlotActivity, setSlotActivityBy, readABMisc_filled hread, hslot, avbUpdateCrc_eq]
    exact writeABMisc_effect.after_silent readEvent_silent

/-- `setSlotSucceed` gives up on a record with another magic, and returns 0 then. -/
theorem setSlotSucceed_wrongMagic {build : Build} {nowSlot : Slot} (hread : a.read = .filled)
    (hslot : getCurrentSlot m.record = some nowSlot) (hmagic : m.record.magic ≠ abMagic) :
    setSlotSucceed host build a m = (0, m.log (.flashRead miscPath metaDataOffset 32)) := by
  simp [setSlotSucceed, setSlotSucceedBy, readABMisc_filled hread, hslot, hmagic]

theorem setSlotSucceed_effect {build : Build} (hmagic : m.record.magic = abMagic) :
    RecordEffect a.write.onRecord (a.confirmed build m) m (setSlotSucceed host build a m) := by
  by_cases hread : a.read = .filled
  swap
  · have hnone : a.confirmed build m = none := if_neg fun h => hread h.1
    have hres : setSlotSucceed host build a m =
        (-1, m.log (.flashRead miscPath metaDataOffset 32)) := by
      simp only [setSlotSucceed, setSlotSucceedBy, readABMisc_failed hread]
    rw [hnone, hres]
    exact .gives_up readEvent_silent
  cases hslot : getCurrentSlot m.record with
  | none =>
    have hnone : a.confirmed build m = none := by simp [SlotAnswers.confirmed, hslot]
    have hres : setSlotSucceed host build a m =
        (-1, m.log (.flashRead miscPath metaDataOffset 32)) := by
      simp only [setSlotSucceed, setSlotSucceedBy, readABMisc_filled hread, hslot]
    rw [hnone, hres]
    exact .gives_up readEvent_silent
  | some nowSlot =>
    have hsome : a.confirmed build m =
        if a.write.opened then some (m.record.confirm build nowSlot).refreshCrc else none := by
      simp [SlotAnswers.confirmed, hread, hslot, hmagic]
    rw [hsome]
    simp only [setSlotSucceed, setSlotSucceedBy, readABMisc_filled hread, hslot, avbUpdateCrc_eq, hmagic, ne_eq,
      not_true_eq_false, ↓reduceIte]
    exact writeABMisc_effect.after_silent readEvent_silent

/-- What `setSlotSucceed` does to the machine, whatever it returns. -/
theorem setSlotSucceed_change {build : Build} :
    RecordChange a.write.onRecord (a.confirmed build m) m (setSlotSucceed host build a m).2 := by
  by_cases hmagic : m.record.magic = abMagic
  · exact setSlotSucceed_effect hmagic |>.toRecordChange
  · have hnone : a.confirmed build m = none := if_neg fun h => hmagic h.2.2
    have hres : (setSlotSucceed host build a m).2 =
        m.log (.flashRead miscPath metaDataOffset 32) := by
      by_cases hread : a.read = .filled
      · cases hslot : getCurrentSlot m.record with
        | none => simp only [setSlotSucceed, setSlotSucceedBy, readABMisc_filled hread, hslot]
        | some nowSlot => rw [setSlotSucceed_wrongMagic hread hslot hmagic]
      · simp only [setSlotSucceed, setSlotSucceedBy, readABMisc_failed hread]
    have hgives : RecordEffect a.write.onRecord none m (-1, m.log (.flashRead miscPath metaDataOffset 32)) :=
      .gives_up readEvent_silent
    rw [hnone, hres]
    exact hgives.toRecordChange

/-- An operation that returns 0 has stored a record. -/
theorem record_of_success {d : Option AbData} {r : Int × Machine}
    (h : RecordEffect a.write.onRecord d m r) (hret : r.1 = 0) : d = some r.2.record := by
  have hzero := h.ret
  rw [hret] at hzero
  cases d with
  | none => simp [handedRet] at hzero
  | some d =>
    cases hwrite : a.write with
    | stored =>
      have hrecord := h.record
      rw [hwrite] at hrecord
      rw [hrecord]
      exact congrArg some (recordAt_overwrite _ d).symm
    | notOpened => simp [handedRet, hwrite, MiscWriteAnswer.onRecord] at hzero
    | failed left => simp [handedRet, hwrite, MiscWriteAnswer.onRecord] at hzero

/-- A `setSlotActivity` that returns 0 has switched from the slot that was selected. -/
theorem setSlotActivity_success (h : (setSlotActivity host a m).1 = 0) :
    ∃ nowSlot, m.record.Selects nowSlot ∧
      (setSlotActivity host a m).2.record = (m.record.switchFrom nowSlot).refreshCrc := by
  have hsome := record_of_success (setSlotActivity_effect host) h
  simp only [SlotAnswers.switched] at hsome
  split at hsome
  · obtain ⟨nowSlot, hslot, hrecord⟩ := Option.map_eq_some_iff.mp hsome
    rw [getCurrentSlot_eq] at hslot
    exact ⟨nowSlot, hslot, hrecord.symm⟩
  · exact absurd hsome (by simp)

/-- A `setSlotSucceed` that returns 0 on a record with the right magic has confirmed the
slot that was selected. -/
theorem setSlotSucceed_success {build : Build} (hmagic : m.record.magic = abMagic)
    (h : (setSlotSucceed host build a m).1 = 0) :
    ∃ nowSlot, m.record.Selects nowSlot ∧
      (setSlotSucceed host build a m).2.record = (m.record.confirm build nowSlot).refreshCrc := by
  have hsome := record_of_success (setSlotSucceed_effect hmagic) h
  simp only [SlotAnswers.confirmed] at hsome
  split at hsome
  · obtain ⟨nowSlot, hslot, hrecord⟩ := Option.map_eq_some_iff.mp hsome
    rw [getCurrentSlot_eq] at hslot
    exact ⟨nowSlot, hslot, hrecord.symm⟩
  · exact absurd hsome (by simp)

end Bootloader
end LinuxOta
