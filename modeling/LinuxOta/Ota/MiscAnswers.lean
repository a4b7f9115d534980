-- SUMMARY: On a block device, what an operation on the record is answered comes from `readMisc_block` and `writeMisc_block`.
import LinuxOta.Ota.Bootloader
import LinuxOta.Ota.Misc

namespace LinuxOta.Bootloader

open Misc

/-! # The record on a block device -/

/-- `readABMisc` through `readMisc_block`; -1 is `none`. -/
def readABMiscBlock (b : BlockAccess) (m : Machine) : Option AbData × Machine :=
  let (ret, buf) := readMiscBlock { b with content := m.devs miscPath } (List.replicate 32 0) metaDataOffset 32
  (if ret = -1 then none else some (AbData.ofBytes buf), m.log (.flashRead miscPath (b.pos metaDataOffset) 32))

/-- `writeABMisc` through `writeMisc_block`. -/
def writeABMiscBlock (b : BlockAccess) (info : AbData) (m : Machine) : Int × Machine :=
  let (ret, content) := writeMiscBlock { b with content := m.devs miscPath } info.toBytes metaDataOffset
  let m := if b.fopen then m.log (.flashWrite miscPath (b.pos metaDataOffset) info.toBytes) else m
  (ret, m.withDev miscPath content)

/-- All of the record is transferred, and the stream closed. -/
def Through (b : BlockAccess) : Prop := b.count metaDataOffset 32 = 32 ∧ b.fclose = true

instance (b : BlockAccess) : Decidable (Through b) := inferInstanceAs (Decidable (_ ∧ _))

/-- The answer of `readMisc` that `readMisc_block` gives. -/
def readAnswer (b : BlockAccess) : MiscReadAnswer :=
  if b.fopen = true ∧ Through b then .filled else .failed

/-- The answer of `writeMisc` that `writeMisc_block` gives to a record. -/
def writeAnswer (b : BlockAccess) (info : AbData) : MiscWriteAnswer :=
  if b.fopen = false then .notOpened
  else if Through b then .stored
  else .failed fun c => c.overwrite (b.pos metaDataOffset) (info.toBytes.take (b.count metaDataOffset 32))

/-- What the calls of an operation on the record answer, when it hands over `info`. -/
def blockAnswers (read write : BlockAccess) (info : AbData) : SeekAnswers where
  read := readAnswer read
  write := writeAnswer write info
  readSeek := read.fseek
  writeSeek := write.fseek

variable {b : BlockAccess}

theorem pos_eq_seekPos (b : BlockAccess) : b.pos metaDataOffset = seekPos b.fseek := rfl

theorem readABMiscBlock_eq (b : BlockAccess) (m : Machine) :
    readABMiscBlock b m = readABMiscAt (seekPos b.fseek) (readAnswer b) m := by
  have hcount : BlockAccess.count { b with content := m.devs miscPath } metaDataOffset 32 =
      b.count metaDataOffset 32 := rfl
  have hpos : BlockAccess.pos { b with content := m.devs miscPath } metaDataOffset = seekPos b.fseek := rfl
  rw [readABMiscBlock, readMiscBlock, hcount, hpos, pos_eq_seekPos, readAnswer]
  cases hopen : b.fopen with
  | false => simp [readABMiscAt]
  | true =>
    by_cases hall : b.count metaDataOffset 32 = 32
    swap
    · simp [readABMiscAt, Through, hall]
    cases hclose : b.fclose with
    | false => simp [readABMiscAt, Through, hall, hclose]
    | true => simp [readABMiscAt, Through, hall, hclose]

theorem writeABMiscBlock_eq (b : BlockAccess) (info : AbData) (m : Machine) :
    writeABMiscBlock b info m = writeABMiscAt (seekPos b.fseek) (writeAnswer b info) info m := by
  have hcount : BlockAccess.count { b with content := m.devs miscPath } metaDataOffset 32 =
      b.count metaDataOffset 32 := rfl
  have hpos : BlockAccess.pos { b with content := m.devs miscPath } metaDataOffset = seekPos b.fseek := rfl
  have htake : info.toBytes.take 32 = info.toBytes :=
    List.take_of_length_le (Nat.le_of_eq info.toBytes_length)
  rw [writeABMiscBlock, writeMiscBlock, info.toBytes_length, hcount, hpos, pos_eq_seekPos, writeAnswer]
  cases hopen : b.fopen with
  | false => simp [writeABMiscAt, Machine.withDev]
  | true =>
    by_cases hall : b.count metaDataOffset 32 = 32
    swap
    · simp [writeABMiscAt, Through, hall, pos_eq_seekPos]
    cases hclose : b.fclose with
    | false => simp [writeABMiscAt, Through, hall, hclose, pos_eq_seekPos, htake]
    | true => simp [writeABMiscAt, Through, hall, hclose, htake, Machine.store, Machine.withDev]

section
variable (host : Endian) (read write : BlockAccess) (m : Machine)

/-- `setSlotSucceed` on a block device is answered by the calls on the device. -/
theorem setSlotSucceedBy_block (build : Build) :
    ∃ info, setSlotSucceedBy host (readABMiscBlock read) (writeABMiscBlock write) build m =
      setSlotSucceedSeeking host build (blockAnswers read write info) m := by
  simp only [setSlotSucceedSeeking, setSlotSucceedBy, readABMiscBlock_eq, blockAnswers]
  obtain ⟨_ | info, m'⟩ := readABMiscAt (seekPos read.fseek) (readAnswer read) m
  · exact ⟨m.record, rfl⟩
  dsimp only
  cases hslot : getCurrentSlot info with
  | none => exact ⟨info, rfl⟩
  | some nowSlot =>
    refine ⟨avbUpdateCrc host (info.confirm build nowSlot), ?_⟩
    dsimp only
    rw [writeABMiscBlock_eq]
    rfl

/-- And so is `setSlotActivity`, when both seeks go through. -/
theorem setSlotActivityBy_block (hread : read.fseek = true) (hwrite : write.fseek = true) :
    ∃ info, setSlotActivityBy host (readABMiscBlock read) (writeABMiscBlock write) m =
      setSlotActivity host (blockAnswers read write info).toSlotAnswers m := by
  have hpos : seekPos true = metaDataOffset := rfl
  simp only [setSlotActivity, setSlotActivityBy, readABMiscBlock_eq, hread, hpos, blockAnswers, readABMisc]
  obtain ⟨_ | info, m'⟩ := readABMiscAt metaDataOffset (readAnswer read) m
  · exact ⟨m.record, rfl⟩
  dsimp only
  cases hslot : getCurrentSlot info with
  | none => exact ⟨info, rfl⟩
  | some nowSlot =>
    refine ⟨avbUpdateCrc host (info.switchFrom nowSlot), ?_⟩
    dsimp only
    rw [writeABMiscBlock_eq, hwrite, hpos, writeABMisc]

end
end LinuxOta.Bootloader
