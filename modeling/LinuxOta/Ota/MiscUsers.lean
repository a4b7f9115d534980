-- SUMMARY: The A/B record and the bootloader message share misc without disturbing each other.
import LinuxOta.Ota.Bootloader
import LinuxOta.Ota.MiscBadBlocks

namespace LinuxOta

/-! # Users of misc -/

/-! ## The message -/

/-- `bootloader_message`. -/
structure BootloaderMessage where
  command : Vector UInt8 32
  status : Vector UInt8 32
  recovery : Vector UInt8 768
  needupdate : Vector UInt8 4
  systemFlag : Vector UInt8 252
  deriving DecidableEq

namespace BootloaderMessage

def toBytes (msg : BootloaderMessage) : Bytes :=
  msg.command.toList ++ msg.status.toList ++ msg.recovery.toList ++ msg.needupdate.toList ++
    msg.systemFlag.toList

/-- The array of `n` bytes at offset `off` of a buffer. -/
def arrayAt (b : Bytes) (off n : Nat) : Vector UInt8 n := .ofFn fun i : Fin n => b.getD (off + i) 0

/-- The message that lies in a buffer. -/
def ofBytes (b : Bytes) : BootloaderMessage where
  command := arrayAt b 0 32
  status := arrayAt b 32 32
  recovery := arrayAt b 64 768
  needupdate := arrayAt b 832 4
  systemFlag := arrayAt b 836 252

@[simp] theorem toBytes_length (msg : BootloaderMessage) : msg.toBytes.length = 1088 := by
  simp [toBytes]

theorem arrayAt_append {n : Nat} (pre post : Bytes) (v : Vector UInt8 n) :
    arrayAt (pre ++ v.toList ++ post) pre.length n = v := by
  ext i hi
  have hin : i < v.toList.length := by simpa using hi
  simp [arrayAt, List.getD, List.getElem?_append]

/-- Every message is read back from its own bytes. -/
theorem ofBytes_toBytes (msg : BootloaderMessage) : ofBytes msg.toBytes = msg := by
  have hcommand :=
    arrayAt_append [] (msg.status.toList ++ msg.recovery.toList ++ msg.needupdate.toList ++
    msg.systemFlag.toList) msg.command
  have hstatus := arrayAt_append msg.command.toList (msg.recovery.toList ++ msg.needupdate.toList ++
    msg.systemFlag.toList) msg.status
  have hrecovery :=
    arrayAt_append (msg.command.toList ++ msg.status.toList) (msg.needupdate.toList ++
    msg.systemFlag.toList) msg.recovery
  have hneedupdate :=
    arrayAt_append (msg.command.toList ++ msg.status.toList ++ msg.recovery.toList)
    msg.systemFlag.toList msg.needupdate
  have hsystemFlag :=
    arrayAt_append (msg.command.toList ++ msg.status.toList ++ msg.recovery.toList ++
    msg.needupdate.toList) [] msg.systemFlag
  simp only [List.nil_append, List.append_nil, List.length_nil, List.length_append, Vector.length_toList,
    Nat.reduceAdd, ← List.append_assoc] at hcommand hstatus hrecovery hneedupdate hsystemFlag
  simp only [ofBytes, toBytes, hcommand, hstatus, hrecovery, hneedupdate, hsystemFlag]

end BootloaderMessage

namespace Misc

open Mtd

/-! ## Misc on a device -/

/-- What misc lies on. -/
inductive Store where
  | block (size : Nat)
  /-- An MTD partition without bad blocks, and what an erase leaves at each address. -/
  | mtd (part : MtdPartition) (left : Content)

namespace Store

def size : Store → Nat
  | block size => size
  | mtd part _ => part.size

/-- What the functions for MTD find. -/
def mtdAccess (c : Content) : Store → MtdAccess Scan Wear
  | block _ => ⟨none, none, none, none⟩
  | mtd part left => Misc.mtdAccess (Medium.withBad (fun _ => false) (fun _ => .healthy) left) part c

/-- What the functions for block devices find. -/
def blockAccess (c : Content) : Store → BlockAccess
  | block size => ⟨c, size, true, true, size, true⟩
  | mtd _ _ => ⟨c, 0, false, false, 0, false⟩

end Store

structure Device where
  /-- What `isMtdDevice` reads. -/
  param : List Char
  store : Store

namespace Device

/-- The command line tells what misc lies on, and an MTD partition is one that `mtd_flash`
can address. -/
def FaultFree (dev : Device) : Prop :=
  match dev.store with
  | .block _ => isMtdDevice dev.param = false
  | .mtd part _ => isMtdDevice dev.param = true ∧ part.size < 2 ^ 31 ∧ part.eraseSize ∣ part.size

/-- `readMisc`, on a content. -/
def readMisc (dev : Device) (buf : Bytes) (offset size : Nat) (c : Content) : Int × Bytes :=
  Misc.readMisc dev.param (dev.store.mtdAccess c) (dev.store.blockAccess c) buf offset size

/-- `writeMisc`, on a content. -/
def writeMisc (dev : Device) (buf : Bytes) (offset : Nat) (c : Content) : Int × Content :=
  let (ret, state, content) :=
    Misc.writeMisc dev.param (dev.store.mtdAccess c) (dev.store.blockAccess c) buf offset
  (ret, match state with
    | some state => state.content
    | none => content)

/-- Two contents are the same within misc. -/
def Same (dev : Device) (c d : Content) : Prop := ∀ j < dev.store.size, c j = d j

variable {dev : Device} {c d : Content}

theorem Same.read (h : dev.Same c d) {off n : Nat} (hn : off + n ≤ dev.store.size) :
    c.read off n = d.read off n :=
  Content.read_congr fun j _ hj => h j (by omega)

theorem Same.overwrite (h : dev.Same c d) (off : Nat) (b : Bytes) :
    dev.Same (c.overwrite off b) (d.overwrite off b) := by
  intro j hj
  simp only [Content.overwrite, h j hj]

theorem Same.trans {e : Content} (h : dev.Same c d) (h' : dev.Same d e) : dev.Same c e :=
  fun j hj => (h j hj).trans (h' j hj)

theorem Same.symm (h : dev.Same c d) : dev.Same d c := fun j hj => (h j hj).symm

theorem same_of_read (h : c.read 0 dev.store.size = d.read 0 dev.store.size) : dev.Same c d := by
  intro j hj
  have hc : (c.read 0 dev.store.size).getD j 0 = c (0 + j) := Content.getD_read hj 0
  rw [h, Content.getD_read hj] at hc
  simpa using hc.symm

/-- A block device without faults transfers what lies in it. -/
theorem count_of_le {size offset n : Nat} (hn : offset + n ≤ size) :
    BlockAccess.count ⟨c, size, true, true, size, true⟩ offset n = n := by
  simp only [BlockAccess.count, BlockAccess.pos, ↓reduceIte]
  omega

/-- On a device without faults `readMisc` reads the range. -/
theorem readMisc_eq (hdev : dev.FaultFree) {buf : Bytes} {offset n : Nat} (hbuf : buf.length = n)
    (hn : offset + n ≤ dev.store.size) : dev.readMisc buf offset n c = (0, c.read offset n) := by
  obtain ⟨param, store⟩ := dev
  cases store with
  | block size =>
    have hparam : isMtdDevice param = false := hdev
    have hcount := count_of_le (c := c) (show offset + n ≤ size from hn)
    simp [Device.readMisc, Misc.readMisc, hparam, readMiscBlock, Store.blockAccess, hcount,
      BlockAccess.pos, List.drop_of_length_le (Nat.le_of_eq hbuf)]
  | mtd part left =>
    obtain ⟨hparam, hsize, hmul⟩ :
        isMtdDevice param = true ∧ part.size < 2 ^ 31 ∧ part.eraseSize ∣ part.size := hdev
    have htotal := readTotal_withBad (fun _ => false) (fun _ => Block.healthy) left c hsize hmul
    rw [if_pos fun _ _ => rfl] at htotal
    simp only [Device.readMisc, Misc.readMisc, hparam, ↓reduceIte, readMiscMtd, Store.mtdAccess, htotal]
    rw [Content.take_drop_read (show offset + n ≤ part.size from hn)]

/-- And `writeMisc` replaces it. -/
theorem writeMisc_eq (hdev : dev.FaultFree) {buf : Bytes} {offset : Nat}
    (hn : offset + buf.length ≤ dev.store.size) :
    (dev.writeMisc buf offset c).1 = 0 ∧
      dev.Same (dev.writeMisc buf offset c).2 (c.overwrite offset buf) := by
  obtain ⟨param, store⟩ := dev
  cases store with
  | block size =>
    have hparam : isMtdDevice param = false := hdev
    have hcount := count_of_le (c := c) (show offset + buf.length ≤ size from hn)
    have hres : Device.writeMisc ⟨param, .block size⟩ buf offset c =
        (0, c.overwrite offset buf) := by
      simp [Device.writeMisc, Misc.writeMisc, hparam, writeMiscBlock, Store.blockAccess, hcount,
        BlockAccess.pos]
    rw [hres]
    exact ⟨rfl, fun _ _ => rfl⟩
  | mtd part left =>
    obtain ⟨hparam, hsize, hmul⟩ :
        isMtdDevice param = true ∧ part.size < 2 ^ 31 ∧ part.eraseSize ∣ part.size := hdev
    have hgood : ∀ i < part.size / part.eraseSize, (fun _ => false) i = false := fun _ _ => rfl
    obtain ⟨s, hret, hcontent⟩ :=
      writeMiscMtd_of_no_bad (fun _ => Block.healthy) left c hsize hmul hgood hn
    have hres : Device.writeMisc ⟨param, .mtd part left⟩ buf offset c = (0, s.content) := by
      simp [Device.writeMisc, Misc.writeMisc, hparam, Store.mtdAccess, hret]
    rw [hres]
    exact ⟨rfl, same_of_read hcontent⟩

end Device

/-! ## The functions of ota -/

/-- `BOOTLOADER_MESSAGE_OFFSET_IN_MISC`. -/
def bootloaderMessageOffset : Nat := 16 * 1024

/-- The content of misc, and what was handed to `writeABMisc` and to `set_bootloader_message`
so far. -/
structure State where
  content : Content
  records : List AbData
  messages : List BootloaderMessage

section
variable (dev : Device)

/-- `readABMisc`; -1 is `none`. -/
def readABMisc (s : State) : Option AbData :=
  let (ret, buf) := dev.readMisc (List.replicate 32 0) metaDataOffset 32 s.content
  if ret = -1 then none else some (AbData.ofBytes buf)

/-- `writeABMisc`. -/
def writeABMisc (info : AbData) (s : State) : Int × State :=
  let (ret, content) := dev.writeMisc info.toBytes metaDataOffset s.content
  (ret, { s with content := content, records := s.records ++ [info] })

/-- `get_bootloader_message`: what it returns, and what it leaves in `out`. -/
def getBootloaderMessage (out : BootloaderMessage) (s : State) : Int × BootloaderMessage :=
  let (ret, buf) := dev.readMisc out.toBytes bootloaderMessageOffset 1088 s.content
  (ret, BootloaderMessage.ofBytes buf)

/-- `set_bootloader_message`. -/
def setBootloaderMessage (msg : BootloaderMessage) (s : State) : Int × State :=
  let (ret, content) := dev.writeMisc msg.toBytes bootloaderMessageOffset s.content
  (ret, { s with content := content, messages := s.messages ++ [msg] })

/-- `setSlotSucceed`. -/
def setSlotSucceed (host : Endian) (build : Build) (s : State) : Int × State :=
  Bootloader.setSlotSucceedBy host (fun s => (readABMisc dev s, s)) (writeABMisc dev) build s

/-- `setSlotActivity`. -/
def setSlotActivity (host : Endian) (s : State) : Int × State :=
  Bootloader.setSlotActivityBy host (fun s => (readABMisc dev s, s)) (writeABMisc dev) s

end

/-- An operation that may write the record. -/
inductive RecordCall where
  | setSlotSucceed (build : Build)
  | setSlotActivity

/-- A call of ota that writes misc. -/
inductive Call where
  | record (call : RecordCall)
  | setBootloaderMessage (msg : BootloaderMessage)

def RecordCall.exec (dev : Device) (host : Endian) (s : State) : RecordCall → Int × State
  | setSlotSucceed build => Misc.setSlotSucceed dev host build s
  | setSlotActivity => Misc.setSlotActivity dev host s

def Call.exec (dev : Device) (host : Endian) (s : State) : Call → Int × State
  | record call => call.exec dev host s
  | setBootloaderMessage msg => Misc.setBootloaderMessage dev msg s

/-- The state after a sequence of calls. -/
def run (dev : Device) (host : Endian) (calls : List Call) (s : State) : State :=
  calls.foldl (fun s call => (call.exec dev host s).2) s

/-- A message that is set last is the last one set. -/
theorem messages_run_concat (dev : Device) (host : Endian) (calls : List Call)
    (msg : BootloaderMessage) (s : State) :
    (run dev host (calls ++ [.setBootloaderMessage msg]) s).messages =
      (run dev host calls s).messages ++ [msg] := by
  rw [run, List.foldl_append]
  rfl

/-- The record an operation hands to `writeABMisc` when it has read `info`. -/
def RecordCall.handed (host : Endian) (info : AbData) : RecordCall → Option AbData
  | setSlotSucceed build =>
    if info.magic = abMagic then
      (Bootloader.getCurrentSlot info).map fun nowSlot => avbUpdateCrc host (info.confirm build nowSlot)
    else none
  | setSlotActivity =>
    (Bootloader.getCurrentSlot info).map fun nowSlot => avbUpdateCrc host (info.switchFrom nowSlot)

/-- What the operation does to a machine on which reading and writing misc succeed. -/
def RecordCall.onMachine (host : Endian) (m : Machine) : RecordCall → Machine
  | setSlotSucceed build => (Bootloader.setSlotSucceed host build ⟨.filled, .stored⟩ m).2
  | setSlotActivity => (Bootloader.setSlotActivity host ⟨.filled, .stored⟩ m).2

theorem RecordCall.onMachine_change {host : Endian} (call : RecordCall) (m : Machine) :
    RecordChange Bootloader.MiscWriteAnswer.stored.onRecord (call.handed host m.record) m
      (call.onMachine host m) := by
  cases call with
  | setSlotSucceed build =>
    have hchange := @Bootloader.setSlotSucceed_change host ⟨.filled, .stored⟩ m build
    simpa [RecordCall.handed, RecordCall.onMachine, Bootloader.SlotAnswers.confirmed,
      Bootloader.MiscWriteAnswer.opened, avbUpdateCrc_eq] using hchange
  | setSlotActivity =>
    have heffect := Bootloader.setSlotActivity_effect host (a := ⟨.filled, .stored⟩) (m := m)
    simpa [RecordCall.handed, RecordCall.onMachine, Bootloader.SlotAnswers.switched,
      Bootloader.MiscWriteAnswer.opened, avbUpdateCrc_eq] using heffect.toRecordChange

/-! ## Record and message -/

/-- Misc after calls on it, when its content was `c` at first: each of the two holds what was
handed over last. -/
structure Undisturbed (dev : Device) (c : Content) (s : State) : Prop where
  record : recordAt s.content = s.records.getLast?.getD (recordAt c)
  message : BootloaderMessage.ofBytes (s.content.read bootloaderMessageOffset 1088) =
    s.messages.getLast?.getD (BootloaderMessage.ofBytes (c.read bootloaderMessageOffset 1088))
  others : ∀ j < dev.store.size, j < 2048 ∨ 2080 ≤ j → j < 16384 ∨ 17472 ≤ j → s.content j = c j

theorem recordAt_of_same {dev : Device} {c d : Content} (hsize : 17472 ≤ dev.store.size)
    (h : dev.Same c d) :
    recordAt c = recordAt d := by
  rw [recordAt, recordAt, h.read (by simp only [metaDataOffset]; omega)]

/-- Writing the record leaves the message. -/
theorem message_overwrite_record (c : Content) (info : AbData) :
    (c.overwrite metaDataOffset info.toBytes).read bootloaderMessageOffset 1088 =
      c.read bootloaderMessageOffset 1088 :=
  Content.read_congr fun j hj _ => Content.overwrite_after (by
    rw [info.toBytes_length]
    simp only [metaDataOffset, bootloaderMessageOffset] at hj ⊢
    omega)

/-- Writing the message leaves the record. -/
theorem recordAt_overwrite_message (c : Content) (msg : BootloaderMessage) :
    recordAt (c.overwrite bootloaderMessageOffset msg.toBytes) = recordAt c := by
  rw [recordAt, recordAt, Content.read_congr fun j _ hj => Content.overwrite_before ?_]
  simp only [metaDataOffset, bootloaderMessageOffset] at hj ⊢
  omega

/-! ## On a device without faults -/

section
variable {dev : Device} {host : Endian} (hdev : dev.FaultFree) (hsize : 17472 ≤ dev.store.size)
include hdev hsize

theorem readABMisc_eq (s : State) : readABMisc dev s = some (recordAt s.content) := by
  have hread : dev.readMisc (List.replicate 32 0) metaDataOffset 32 s.content =
      (0, s.content.read metaDataOffset 32) :=
    dev.readMisc_eq hdev List.length_replicate (by simp only [metaDataOffset]; omega)
  rw [readABMisc, hread]
  rfl

theorem getBootloaderMessage_eq (out : BootloaderMessage) (s : State) :
    getBootloaderMessage dev out s =
      (0, BootloaderMessage.ofBytes (s.content.read bootloaderMessageOffset 1088)) := by
  have hread : dev.readMisc out.toBytes bootloaderMessageOffset 1088 s.content =
      (0, s.content.read bootloaderMessageOffset 1088) :=
    dev.readMisc_eq hdev out.toBytes_length (by simp only [bootloaderMessageOffset]; omega)
  rw [getBootloaderMessage, hread]

theorem setBootloaderMessage_eq (msg : BootloaderMessage) (s : State) :
    ∃ content, setBootloaderMessage dev msg s =
        (0, { s with content := content, messages := s.messages ++ [msg] }) ∧
      dev.Same content (s.content.overwrite bootloaderMessageOffset msg.toBytes) := by
  have hfits : bootloaderMessageOffset + msg.toBytes.length ≤ dev.store.size := by
    rw [msg.toBytes_length]
    simp only [bootloaderMessageOffset]
    omega
  obtain ⟨hret, hsame⟩ := Device.writeMisc_eq (c := s.content) hdev hfits
  refine ⟨(dev.writeMisc msg.toBytes bootloaderMessageOffset s.content).2, ?_, hsame⟩
  rw [setBootloaderMessage]
  exact Prod.ext hret rfl

theorem writeABMisc_eq (info : AbData) (s : State) :
    ∃ content, writeABMisc dev info s = (0, { s with content := content, records := s.records ++ [info] }) ∧
      dev.Same content (s.content.overwrite metaDataOffset info.toBytes) := by
  have hfits : metaDataOffset + info.toBytes.length ≤ dev.store.size := by
    rw [info.toBytes_length]
    simp only [metaDataOffset]
    omega
  obtain ⟨hret, hsame⟩ := Device.writeMisc_eq (c := s.content) hdev hfits
  refine ⟨(dev.writeMisc info.toBytes metaDataOffset s.content).2, ?_, hsame⟩
  rw [writeABMisc]
  exact Prod.ext hret rfl

variable (host) in
/-- An operation on the record writes the record it hands over, or nothing. -/
theorem RecordCall.exec_eq (call : RecordCall) (s : State) :
    match call.handed host (recordAt s.content) with
    | some info =>
      ∃ content, call.exec dev host s =
          (0, { s with content := content, records := s.records ++ [info] }) ∧
        dev.Same content (s.content.overwrite metaDataOffset info.toBytes)
    | none => (call.exec dev host s).2 = s := by
  cases call with
  | setSlotSucceed build =>
    rw [RecordCall.exec, Misc.setSlotSucceed, Bootloader.setSlotSucceedBy, readABMisc_eq hdev hsize,
      RecordCall.handed]
    dsimp only
    cases hslot : Bootloader.getCurrentSlot (recordAt s.content) with
    | none => simp
    | some nowSlot =>
      by_cases hmagic : (recordAt s.content).magic = abMagic
      · obtain ⟨content, hwrite, hsame⟩ :=
          writeABMisc_eq hdev hsize (avbUpdateCrc host ((recordAt s.content).confirm build nowSlot)) s
        rw [if_pos hmagic]
        dsimp only [Option.map_some]
        rw [if_neg (fun h => h hmagic), hwrite]
        exact ⟨content, rfl, hsame⟩
      · rw [if_neg hmagic]
        dsimp only
        rw [if_pos hmagic]
  | setSlotActivity =>
    rw [RecordCall.exec, Misc.setSlotActivity, Bootloader.setSlotActivityBy, readABMisc_eq hdev hsize,
      RecordCall.handed]
    dsimp only
    cases hslot : Bootloader.getCurrentSlot (recordAt s.content) with
    | none => simp
    | some nowSlot =>
      obtain ⟨content, hwrite, hsame⟩ :=
        writeABMisc_eq hdev hsize (avbUpdateCrc host ((recordAt s.content).switchFrom nowSlot)) s
      dsimp only [Option.map_some]
      rw [hwrite]
      exact ⟨content, rfl, hsame⟩

theorem Call.exec_undisturbed {c : Content} (call : Call) {s : State} (h : Undisturbed dev c s) :
    Undisturbed dev c (call.exec dev host s).2 := by
  cases call with
  | record call =>
    have hcall := call.exec_eq host hdev hsize s
    rw [Call.exec]
    cases hhanded : call.handed host (recordAt s.content) with
    | none =>
      rw [hhanded] at hcall
      rw [show (call.exec dev host s).2 = s from hcall]
      exact h
    | some info =>
      rw [hhanded] at hcall
      obtain ⟨content, hexec, hsame⟩ := hcall
      rw [hexec]
      refine ⟨?_, ?_, fun j hj hrecord hmessage => ?_⟩
      · rw [recordAt_of_same hsize hsame, recordAt_overwrite, List.getLast?_concat,
          Option.getD_some]
      · rw [hsame.read (by simp only [bootloaderMessageOffset]; omega), message_overwrite_record]
        exact h.message
      · refine (hsame j hj).trans (Eq.trans ?_ (h.others j hj hrecord hmessage))
        rcases hrecord with hbefore | hafter
        · exact Content.overwrite_before hbefore
        · exact Content.overwrite_after (by rw [info.toBytes_length]; exact hafter)
  | setBootloaderMessage msg =>
    obtain ⟨content, hexec, hsame⟩ := setBootloaderMessage_eq hdev hsize msg s
    rw [Call.exec, hexec]
    refine ⟨?_, ?_, fun j hj hrecord hmessage => ?_⟩
    · rw [recordAt_of_same hsize hsame, recordAt_overwrite_message]
      exact h.record
    · have hread := Content.read_overwrite s.content bootloaderMessageOffset msg.toBytes
      rw [msg.toBytes_length] at hread
      rw [hsame.read (by simp only [bootloaderMessageOffset]; omega), hread, List.getLast?_concat,
        Option.getD_some, BootloaderMessage.ofBytes_toBytes]
    · refine (hsame j hj).trans (Eq.trans ?_ (h.others j hj hrecord hmessage))
      rcases hmessage with hbefore | hafter
      · exact Content.overwrite_before hbefore
      · exact Content.overwrite_after (by rw [msg.toBytes_length]; exact hafter)

variable (host) in
theorem run_undisturbed {c : Content} (calls : List Call) :
    ∀ {s : State}, Undisturbed dev c s → Undisturbed dev c (run dev host calls s) := by
  induction calls with
  | nil => exact fun h => h
  | cons call calls ih => exact fun h => ih (call.exec_undisturbed hdev hsize h)

/-- The order of an operation on the record and a message does not matter. -/
theorem record_message_comm (call : RecordCall) (msg : BootloaderMessage) (s : State) :
    dev.Same (run dev host [.record call, .setBootloaderMessage msg] s).content
      (run dev host [.setBootloaderMessage msg, .record call] s).content := by
  have hrecord := call.exec_eq host hdev hsize s
  obtain ⟨content, hmessage, hsame⟩ := setBootloaderMessage_eq hdev hsize msg s
  have hlast := call.exec_eq host hdev hsize
    { s with content := content, messages := s.messages ++ [msg] }
  have hkept : recordAt content = recordAt s.content := by
    rw [recordAt_of_same hsize hsame, recordAt_overwrite_message]
  simp only [run, List.foldl_cons, List.foldl_nil, Call.exec, hmessage]
  rw [show recordAt ({ s with content := content, messages := s.messages ++ [msg] } : State).content =
    recordAt s.content from hkept] at hlast
  cases hhanded : call.handed host (recordAt s.content) with
  | none =>
    rw [hhanded] at hrecord hlast
    rw [show (call.exec dev host s).2 = s from hrecord, hmessage,
      show (call.exec dev host _).2 = _ from hlast]
    exact fun _ _ => rfl
  | some info =>
    rw [hhanded] at hrecord hlast
    obtain ⟨content₁, hexec, hsame₁⟩ := hrecord
    obtain ⟨content₂, hexec₂, hsame₂⟩ := hlast
    obtain ⟨content₃, hmessage₃, hsame₃⟩ := setBootloaderMessage_eq hdev hsize msg
      { s with content := content₁, records := s.records ++ [info] }
    have hcomm : (s.content.overwrite metaDataOffset info.toBytes).overwrite bootloaderMessageOffset msg.toBytes =
        (s.content.overwrite bootloaderMessageOffset msg.toBytes).overwrite metaDataOffset info.toBytes :=
      Content.overwrite_comm (by
        rw [info.toBytes_length]
        simp only [metaDataOffset, bootloaderMessageOffset]
        omega)
    rw [hexec, hexec₂, hmessage₃]
    have hfirst := hsame₃.trans (hsame₁.overwrite bootloaderMessageOffset msg.toBytes)
    rw [hcomm] at hfirst
    exact hfirst.trans (hsame₂.trans (hsame.overwrite metaDataOffset info.toBytes)).symm

/-- The operations do to misc what `setSlotSucceed` and `setSlotActivity` do to a machine on
which reading and writing misc succeed. -/
theorem RecordCall.refines (call : RecordCall) {s : State} {m : Machine}
    (hm : dev.Same s.content (m.devs miscPath)) :
    dev.Same (call.exec dev host s).2.content ((call.onMachine host m).devs miscPath) := by
  have hrecord : recordAt s.content = m.record := recordAt_of_same hsize hm
  have hcall := call.exec_eq host hdev hsize s
  rw [hrecord] at hcall
  rw [(call.onMachine_change m).devs, Function.update_self]
  cases hhanded : call.handed host m.record with
  | none =>
    rw [hhanded] at hcall
    rw [show (call.exec dev host s).2 = s from hcall]
    exact hm
  | some info =>
    rw [hhanded] at hcall
    obtain ⟨content, hexec, hsame⟩ := hcall
    rw [hexec]
    exact hsame.trans (hm.overwrite metaDataOffset info.toBytes)

end

/-- Misc in nine blocks of a NAND chip. -/
def nandMisc :
    Device := ⟨"storagemedia=nand".toList, .mtd ⟨18432, 2048, by decide, by decide⟩ fun _ => 255⟩

/-- A message of ones. -/
def messageOfOnes : BootloaderMessage := .ofBytes (List.replicate 1088 1)

end Misc
end LinuxOta
