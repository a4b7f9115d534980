-- SUMMARY: `rk_ab_meta`: reading and writing the record on the misc partition, and the two operations that rewrite it.
import LinuxOta.AbMeta.Selection
import LinuxOta.AbMeta.RunningSlot
import LinuxOta.Flash.DlFlash
import Mathlib.Data.List.GetD

namespace LinuxOta

/-! # rk_ab_meta -/

/-- `AB_META_BLOCK_PARTITION_NAME`, `MISC_PARTITION_NAME_BLOCK`. -/
def miscPath : String := "/dev/block/by-name/misc"

/-- `META_DATA_OFFSET`, `MISC_OFFSET`. -/
def metaDataOffset : Nat := 2048

/-- The record that lies on the misc partition. -/
def recordAt (misc : Content) : AbData :=
  AbData.ofBytes (misc.read metaDataOffset 32)

/-- The record on the misc partition of the machine. -/
def Machine.record (m : Machine) : AbData := recordAt (m.devs miscPath)

theorem recordAt_overwrite (misc : Content) (d : AbData) :
    recordAt (misc.overwrite metaDataOffset d.toBytes) = d := by
  rw [recordAt, ← d.toBytes_length, Content.read_overwrite, AbData.ofBytes_toBytes]

/-- A write that stops after `n` bytes leaves the first `n` bytes of the new record over
the old one. -/
theorem recordAt_partial (misc : Content) (d : AbData) (n : Nat) :
    let r := recordAt (misc.overwrite metaDataOffset (d.toBytes.take n))
    r.slotA.priority = (if 8 < n then d else recordAt misc).slotA.priority ∧
    r.slotA.triesRemaining = (if 9 < n then d else recordAt misc).slotA.triesRemaining ∧
    r.slotA.successfulBoot = (if 10 < n then d else recordAt misc).slotA.successfulBoot ∧
    r.slotB.priority = (if 12 < n then d else recordAt misc).slotB.priority ∧
    r.slotB.triesRemaining = (if 13 < n then d else recordAt misc).slotB.triesRemaining ∧
    r.slotB.successfulBoot = (if 14 < n then d else recordAt misc).slotB.successfulBoot ∧
    r.lastBoot = (if 16 < n then d else recordAt misc).lastBoot := by
  have hnew : ∀ i < 32, i < n →
      ((misc.overwrite metaDataOffset (d.toBytes.take n)).read metaDataOffset 32).getD i 0 =
        d.toBytes.getD i 0 := by
    intro i hi hin
    have hlen : i < (d.toBytes.take n).length := by simp; omega
    have hlen' : i < d.toBytes.length := by simp; omega
    rw [Content.getD_read hi, Content.overwrite_inside hlen, List.getElem_take,
      List.getD_eq_getElem _ _ hlen']
  have hold : ∀ i < 32, ¬ i < n →
      ((misc.overwrite metaDataOffset (d.toBytes.take n)).read metaDataOffset 32).getD i 0 =
        (misc.read metaDataOffset 32).getD i 0 := by
    intro i hi hin
    have hlen : metaDataOffset + (d.toBytes.take n).length ≤ metaDataOffset + i := by simp; omega
    rw [Content.getD_read hi, Content.getD_read hi, Content.overwrite_after hlen]
  have hfields := d.ofBytes_toBytes
  have hpick : ∀ {β : Type} (f : AbData → β) (i : Nat) (hi : i < 32) (k : UInt8 → β),
      (∀ b : Bytes, f (AbData.ofBytes b) = k (b.getD i 0)) →
      f (recordAt (misc.overwrite metaDataOffset (d.toBytes.take n))) =
        f (if i < n then d else recordAt misc) := by
    intro β f i hi k hk
    by_cases hin : i < n
    · rw [if_pos hin, recordAt, hk, hnew i hi hin, ← hk, hfields]
    · rw [if_neg hin, recordAt, hk, hold i hi hin, ← hk, recordAt]
  exact ⟨hpick (·.slotA.priority) 8 (by omega) id fun _ => rfl,
    hpick (·.slotA.triesRemaining) 9 (by omega) id fun _ => rfl,
    hpick (·.slotA.successfulBoot) 10 (by omega) id fun _ => rfl,
    hpick (·.slotB.priority) 12 (by omega) id fun _ => rfl,
    hpick (·.slotB.triesRemaining) 13 (by omega) id fun _ => rfl,
    hpick (·.slotB.successfulBoot) 14 (by omega) id fun _ => rfl,
    hpick (·.lastBoot) 16 (by omega) id fun _ => rfl⟩

namespace AbData

/-- The assignments to `slots` with which both switch operations, in ab_meta and in
ota, give the other slot its chance. -/
def switchFrom (d : AbData) (current : Slot) : AbData :=
  let d := d.setSlot current { d.slots current with priority := maxPriority - 1 }
  d.setSlot current.other
    { d.slots current.other with
      priority := maxPriority, triesRemaining := maxTriesRemaining, successfulBoot := 0 }

theorem switchFrom_slots (d : AbData) (current : Slot) :
    (d.switchFrom current).slots current = { d.slots current with priority := maxPriority - 1 } ∧
    (d.switchFrom current).slots current.other =
      { d.slots current.other with
        priority := maxPriority, triesRemaining := maxTriesRemaining, successfulBoot := 0 } := by
  simp [switchFrom]

/-- A slot of the highest priority with tries left is selected, if the other one has a
lower priority. -/
theorem selects_of_lower {d : AbData} {s : Slot} (hprio : (d.slots s).priority = maxPriority)
    (hother : (d.slots s.other).priority < maxPriority) (htries : 0 < (d.slots s).triesRemaining) :
    d.Selects s := by
  rw [selects_iff]
  refine .inl ⟨⟨?_, .inr htries⟩, fun _ => .inl ?_⟩
  · rw [hprio]
    decide
  · rw [hprio]
    exact hother

/-- After the assignments the other slot is selected, whatever the record was before. -/
theorem switchFrom_selects (d : AbData) (current : Slot) :
    (d.switchFrom current).Selects current.other := by
  obtain ⟨hcurrent, hother⟩ := d.switchFrom_slots current
  apply selects_of_lower
  · rw [hother]
  · rw [Slot.other_other, hcurrent]
    exact (by decide : maxPriority - 1 < maxPriority)
  · rw [hother]
    exact (by decide : 0 < maxTriesRemaining)

end AbData

namespace AbMeta

/-- What the calls made by an operation on the record answer, in their order. -/
structure MetaAnswers where
  openRead : Int
  read : ReadAnswer
  cmdline : CmdlineAnswer
  openWrite : Int
  write : WriteAnswer
  deriving DecidableEq, Repr

section
variable (g : FlashCtrl)

/-- `ab_meta_read_data`, into a zeroed record. -/
def readData (opened : Int) (read : ReadAnswer) (m : Machine) : Int × AbData × Machine :=
  let (fd, m) := dlFlashOpenByName g opened miscPath m
  if fd < 0 then
    (-1, AbData.ofBytes (List.replicate 32 0), m)
  else
    let (ret, buf, m) := dlFlashRead g read fd miscPath metaDataOffset (List.replicate 32 0) m
    let m := dlFlashClose g fd miscPath m
    if ret < 0 then (-1, AbData.ofBytes buf, m) else (ret, AbData.ofBytes buf, m)

/-- `ab_meta_write_data`. -/
def writeData (opened : Int) (write : WriteAnswer) (d : AbData) (m : Machine) : Int × Machine :=
  let (fd, m) := dlFlashOpenByName g opened miscPath m
  if fd < 0 then
    (-1, m)
  else
    let (ret, m) := dlFlashWrite g write fd miscPath metaDataOffset d.toBytes m
    let m := dlFlashClose g fd miscPath m
    if ret < 0 then (-1, m) else (ret, m)

variable (host : Endian)

/-- `rk_ab_meta_active_current_slot`. -/
def activeCurrentSlot (a : MetaAnswers) (m : Machine) : Int × Machine :=
  let (ret, d, m) := readData g a.openRead a.read m
  if ret < 0 then
    (-1, m)
  else
    let d := abMetaUpdateCrc host (d.setLastBoot (UInt8.ofInt ret))
    let (ret, m) := writeData g a.openWrite a.write d m
    if ret < 0 then (-1, m) else (ret, m)

/-- `rk_ab_meta_active_another_slot`. -/
def activeAnotherSlot (a : MetaAnswers) (m : Machine) : Int × Machine :=
  let (ret, d, m) := readData g a.openRead a.read m
  if ret < 0 then
    (-1, m)
  -- the return code of the read is taken for a slot number
  else if ret ≥ 2 then
    (-1, m)
  else match getRunningSlot a.cmdline m with
    | none => (-1, m)
    | some currentSlot =>
      let d := d.switchFrom currentSlot
      let d := abMetaUpdateCrc host (d.setLastBoot (UInt8.ofInt ret))
      let (ret, m) := writeData g a.openWrite a.write d m
      if ret < 0 then (-1, m) else (ret, m)

end

/-! ## What the calls do -/

theorem not_miscPath_lt : ¬ miscPath < flashDevPrefix := by decide

/-- What the buffer holds after a read that did not fail: the stored record, or the
zeros it started with. -/
def bufferAfter (read : ReadAnswer) (m : Machine) : AbData :=
  match read with
  | .filled => m.record
  | _ => AbData.ofBytes (List.replicate 32 0)

/-- A read that neither fails nor ignores the buffer gives the stored record. -/
theorem bufferAfter_eq {read : ReadAnswer} {m : Machine} (hi : read ≠ .ignored)
    (hf : read ≠ .failed) :
    bufferAfter read m = m.record := by
  cases read with
  | filled => rfl
  | ignored => exact absurd rfl hi
  | failed => exact absurd rfl hf

/-- The record `rk_ab_meta_active_another_slot` makes of `d`. Drivers only return 0
or -1 from a read, so `last_boot` is 0. -/
def switchedRecord (d : AbData) (current : Slot) : AbData :=
  ((d.switchFrom current).setLastBoot 0).refreshCrc

theorem switchedRecord_selects (d : AbData) (current : Slot) :
    (switchedRecord d current).Selects current.other := by
  obtain ⟨hcurrent, hother⟩ := d.switchFrom_slots current
  apply AbData.selects_of_lower
  · simp [switchedRecord, hother]
  · simp only [switchedRecord, AbData.slots_refreshCrc, AbData.slots_setLastBoot,
      Slot.other_other, hcurrent]
    exact (by decide : maxPriority - 1 < maxPriority)
  · simp only [switchedRecord, AbData.slots_refreshCrc, AbData.slots_setLastBoot, hother]
    exact (by decide : 0 < maxTriesRemaining)

/-- The record `rk_ab_meta_active_current_slot` makes of `d`. -/
def confirmedRecord (d : AbData) : AbData :=
  (d.setLastBoot 0).refreshCrc

end AbMeta

/-! ## Rewriting the record

Every operation on the record reads it, changes it, and hands it to one write, or gives
up before. `d` is the record it hands over. -/

/-- How the write at the end of an operation on the record ends: what it returns, and
what is on the misc partition afterwards. -/
structure RecordWrite where
  ret : Int
  land : Bytes → Content → Content

/-- The write of `ab_meta_write_data`. -/
def WriteAnswer.onRecord (write : WriteAnswer) : RecordWrite where
  ret := write.ret
  land b misc := misc.overwrite metaDataOffset (b.take (write.reached b.length))

/-- The return code of an operation that hands over `d`. -/
def handedRet (write : RecordWrite) : Option AbData → Int
  | none => -1
  | some _ => write.ret

/-- The acts of an operation that hands over `d`. -/
def handedActs : Option AbData → List Event
  | none => []
  | some d => [.flashWrite miscPath metaDataOffset d.toBytes]

/-- The misc partition after an operation that hands over `d`. -/
def handedMisc (write : RecordWrite) (misc : Content) : Option AbData → Content
  | none => misc
  | some d => write.land d.toBytes misc

/-- A record that is stored is the one on the misc partition afterwards. -/
theorem recordAt_handedMisc_stored (misc : Content) (d : AbData) :
    recordAt (handedMisc WriteAnswer.stored.onRecord misc (some d)) = d := by
  simp only [handedMisc, WriteAnswer.onRecord, WriteAnswer.reached, List.take_length]
  exact recordAt_overwrite misc d

/-- What an operation on the record does to the machine, given the record it hands over
and the answer of the write. -/
structure RecordChange (write : RecordWrite) (d : Option AbData) (m m' : Machine) : Prop where
  performs : m.Performs m' (handedActs d)
  devs : m'.devs = Function.update m.devs miscPath (handedMisc write (m.devs miscPath) d)
  files : m'.files = m.files

/-- The same, with the return code of the operations that fail when they give up. -/
structure RecordEffect (write : RecordWrite) (d : Option AbData) (m : Machine) (r : Int × Machine) : Prop
    extends RecordChange write d m r.2 where
  ret : r.1 = handedRet write d

/-- The record after an operation. -/
theorem RecordChange.record {write : RecordWrite} {d : Option AbData} {m m' : Machine}
    (h : RecordChange write d m m') : m'.record = recordAt (handedMisc write (m.devs miscPath) d) := by
  rw [Machine.record, h.devs, Function.update_self]

namespace RecordEffect

variable {write : RecordWrite} {d : Option AbData} {m : Machine} {r : Int × Machine}

/-- Silent events before an operation do not matter. -/
theorem after_silent {evs : List Event} (hevs : ∀ e ∈ evs, e.acts = false)
    (h : RecordEffect write d { m with journal := m.journal ++ evs } r) : RecordEffect write d m r where
  ret := h.ret
  performs := by
    have hpre : m.Performs { m with journal := m.journal ++ evs } [] :=
      ⟨rfl, evs, rfl, List.filter_eq_nil_iff.mpr fun e he => by simp [hevs e he]⟩
    exact hpre.trans h.performs
  devs := h.devs
  files := h.files

/-- An operation that gives up. -/
theorem gives_up {evs : List Event} (hevs : ∀ e ∈ evs, e.acts = false) :
    RecordEffect write none m (-1, { m with journal := m.journal ++ evs }) where
  ret := rfl
  performs := ⟨rfl, evs, rfl, List.filter_eq_nil_iff.mpr fun e he => by simp [hevs e he]⟩
  devs := by simp [handedMisc]
  files := rfl

end RecordEffect

namespace AbMeta

/-- The record `rk_ab_meta_active_another_slot` hands to the write. -/
def MetaAnswers.switched (a : MetaAnswers) (g : FlashCtrl) (m : Machine) : Option AbData :=
  if g.Opens a.openRead ∧ a.read ≠ .failed ∧ g.Opens a.openWrite then
    (getRunningSlot a.cmdline m).map (switchedRecord (bufferAfter a.read m))
  else none

/-- The record `rk_ab_meta_active_current_slot` hands to the write. -/
def MetaAnswers.confirmed (a : MetaAnswers) (g : FlashCtrl) (m : Machine) : Option AbData :=
  if g.Opens a.openRead ∧ a.read ≠ .failed ∧ g.Opens a.openWrite then
    some (confirmedRecord (bufferAfter a.read m))
  else none

section
variable {g : FlashCtrl} {host : Endian} {m : Machine}

/-- When a record is handed over by the switch, and which. -/
theorem MetaAnswers.switched_eq_some_iff {a : MetaAnswers} {d : AbData} :
    a.switched g m = some d ↔
      (g.Opens a.openRead ∧ a.read ≠ .failed ∧ g.Opens a.openWrite) ∧
        ∃ current, getRunningSlot a.cmdline m = some current ∧
          switchedRecord (bufferAfter a.read m) current = d := by
  simp only [switched, Option.ite_none_right_eq_some, Option.map_eq_some_iff]

/-- The events of a successful `ab_meta_read_data`. -/
def readEvents : List Event :=
  [.flashOpen miscPath, .flashRead miscPath metaDataOffset 32, .flashClose miscPath]

theorem readEvents_silent : ∀ e ∈ readEvents, e.acts = false := by
  simp [readEvents, Event.acts]

theorem readData_ok {opened : Int} {read : ReadAnswer} (ho : g.Opens opened)
    (hr : read ≠ .failed) :
    readData g opened read m = (0, bufferAfter read m, { m with journal := m.journal ++ readEvents }) := by
  cases read with
  | failed => exact absurd rfl hr
  | filled =>
    simp [readData, dlFlashOpenByName_opens not_miscPath_lt ho, Int.not_lt.mpr ho.2, dlFlashRead,
      dlFlashClose, ho.1, ReadAnswer.ret, bufferAfter, Machine.record, recordAt, readEvents, Machine.log]
  | ignored =>
    simp [readData, dlFlashOpenByName_opens not_miscPath_lt ho, Int.not_lt.mpr ho.2, dlFlashRead,
      dlFlashClose, ho.1, ReadAnswer.ret, bufferAfter, readEvents, Machine.log]

theorem readData_fails {opened : Int} {read : ReadAnswer}
    (h : ¬ (g.Opens opened ∧ read ≠ .failed)) :
    ∃ d evs, (∀ e ∈ evs, e.acts = false) ∧
      readData g opened read m = (-1, d, { m with journal := m.journal ++ evs }) := by
  by_cases ho : g.Opens opened
  · have hr : read = .failed := by
      by_contra hr
      exact h ⟨ho, hr⟩
    refine ⟨AbData.ofBytes (List.replicate 32 0), readEvents, readEvents_silent, ?_⟩
    simp [readData, dlFlashOpenByName_opens not_miscPath_lt ho, Int.not_lt.mpr ho.2, dlFlashRead,
      dlFlashClose, ho.1, ReadAnswer.ret, hr, Machine.log, readEvents]
  · exact ⟨_, [], by simp, by simp [readData, dlFlashOpenByName_fails ho]; rfl⟩

theorem writeData_fails {opened : Int} {write : WriteAnswer} {d : AbData} (h : ¬ g.Opens opened) :
    writeData g opened write d m = (-1, m) := by
  simp [writeData, dlFlashOpenByName_fails h]

theorem writeData_ok {opened : Int} {write : WriteAnswer} {d : AbData} (ho : g.Opens opened) :
    RecordEffect write.onRecord (some d) m (writeData g opened write d m) := by
  have heq : writeData g opened write d m = (write.ret,
      (((m.log (.flashOpen miscPath)).log (.flashWrite miscPath metaDataOffset d.toBytes)).store
        miscPath metaDataOffset (d.toBytes.take (write.reached 32))).log (.flashClose miscPath)) := by
    simp only [writeData, dlFlashOpenByName_opens not_miscPath_lt ho, Int.not_lt.mpr ho.2,
      ↓reduceIte, dlFlashWrite_opens ho, dlFlashClose_opens ho, AbData.toBytes_length]
    cases write <;> rfl
  rw [heq]
  refine ⟨⟨⟨rfl, [.flashOpen miscPath, .flashWrite miscPath metaDataOffset d.toBytes,
    .flashClose miscPath], by simp, rfl⟩, by simp [handedMisc, WriteAnswer.onRecord, Machine.store], rfl⟩,
    rfl⟩

/-- An operation that ends with `ab_meta_write_data`. -/
theorem writeData_effect (opened : Int) (write : WriteAnswer) (d : AbData) :
    RecordEffect write.onRecord (if g.Opens opened then some d else none) m
      (writeData g opened write d m) := by
  by_cases ho : g.Opens opened
  · rw [if_pos ho]
    exact writeData_ok ho
  · rw [if_neg ho, writeData_fails ho]
    have hgives : RecordEffect write.onRecord none m (-1, { m with journal := m.journal ++ [] }) :=
      .gives_up (by simp)
    simpa using hgives

/-- The operations report every failure of the write as -1. -/
private theorem report_eq {r : Int × Machine} {d : Option AbData} {write : WriteAnswer}
    (h : RecordEffect write.onRecord d m r) : (if r.1 < 0 then (-1, r.2) else (r.1, r.2)) = r := by
  have hret : r.1 = 0 ∨ r.1 = -1 := by
    rw [h.ret]
    cases d with
    | none => exact .inr rfl
    | some d =>
      cases write with
      | stored => exact .inl rfl
      | ignored => exact .inl rfl
      | failed n => exact .inr rfl
  rcases hret with hret | hret
  · rw [if_neg (by omega)]
  · rw [if_pos (by omega)]
    exact Prod.ext hret.symm rfl

variable (host) in
theorem activeAnotherSlot_effect {a : MetaAnswers} :
    RecordEffect a.write.onRecord (a.switched g m) m (activeAnotherSlot g host a m) := by
  by_cases hread : g.Opens a.openRead ∧ a.read ≠ .failed
  swap
  · obtain ⟨d, evs, hevs, heq⟩ := readData_fails (m := m) hread
    have hnone : a.switched g m = none := by
      simp only [MetaAnswers.switched]
      exact if_neg fun h => hread ⟨h.1, h.2.1⟩
    have hres : activeAnotherSlot g host a m = (-1, { m with journal := m.journal ++ evs }) := by
      simp [activeAnotherSlot, heq]
    rw [hnone, hres]
    exact .gives_up hevs
  cases hslot : getRunningSlot a.cmdline m with
  | none =>
    have hres : activeAnotherSlot g host a m =
        (-1, { m with journal := m.journal ++ readEvents }) := by
      have hslot' : ∀ j, getRunningSlot a.cmdline { m with journal := j } = none := fun _ => hslot
      simp [activeAnotherSlot, readData_ok hread.1 hread.2, hslot']
    have hnone : a.switched g m = none := by simp [MetaAnswers.switched, hslot]
    rw [hnone, hres]
    exact .gives_up readEvents_silent
  | some current =>
    have hslot' : ∀ j, getRunningSlot a.cmdline { m with journal := j } = some current :=
      fun _ => hslot
    have hboot : UInt8.ofInt 0 = 0 := rfl
    have hsome : a.switched g m =
        if g.Opens a.openWrite then some (switchedRecord (bufferAfter a.read m) current) else none := by
      simp [MetaAnswers.switched, hslot, hread.1, hread.2]
    have hwrite := writeData_effect (g := g) (m := { m with journal := m.journal ++ readEvents })
      a.openWrite a.write (switchedRecord (bufferAfter a.read m) current)
    have hres : activeAnotherSlot g host a m = writeData g a.openWrite a.write
        (switchedRecord (bufferAfter a.read m) current) { m with journal := m.journal ++ readEvents } := by
      rw [← report_eq hwrite]
      simp [activeAnotherSlot, readData_ok hread.1 hread.2, hslot', hboot, abMetaUpdateCrc_eq,
        switchedRecord]
    rw [hsome, hres]
    exact hwrite.after_silent readEvents_silent

variable (host) in
theorem activeCurrentSlot_effect {a : MetaAnswers} :
    RecordEffect a.write.onRecord (a.confirmed g m) m (activeCurrentSlot g host a m) := by
  by_cases hread : g.Opens a.openRead ∧ a.read ≠ .failed
  swap
  · obtain ⟨d, evs, hevs, heq⟩ := readData_fails (m := m) hread
    have hnone : a.confirmed g m = none := by
      simp only [MetaAnswers.confirmed]
      exact if_neg fun h => hread ⟨h.1, h.2.1⟩
    have hres : activeCurrentSlot g host a m = (-1, { m with journal := m.journal ++ evs }) := by
      simp [activeCurrentSlot, heq]
    rw [hnone, hres]
    exact .gives_up hevs
  have hboot : UInt8.ofInt 0 = 0 := rfl
  have hsome : a.confirmed g m =
      if g.Opens a.openWrite then some (confirmedRecord (bufferAfter a.read m)) else none := by
    simp [MetaAnswers.confirmed, hread.1, hread.2]
  have hwrite := writeData_effect (g := g) (m := { m with journal := m.journal ++ readEvents })
    a.openWrite a.write (confirmedRecord (bufferAfter a.read m))
  have hres : activeCurrentSlot g host a m = writeData g a.openWrite a.write
      (confirmedRecord (bufferAfter a.read m)) { m with journal := m.journal ++ readEvents } := by
    rw [← report_eq hwrite]
    simp [activeCurrentSlot, readData_ok hread.1 hread.2, hboot, abMetaUpdateCrc_eq,
      confirmedRecord]
  rw [hsome, hres]
  exact hwrite.after_silent readEvents_silent

end

end AbMeta
/-- A device that runs from slot `s` and whose record selects it. -/
def deviceOn (s : Slot) : Machine where
  files := fun _ => none
  devs := fun path =>
    if path = miscPath then
      Content.overwrite (fun _ => 0) metaDataOffset
        (AbData.toBytes
          { magic := abMagic
            versionMajor := 1
            versionMinor := 0
            reserved1 := .replicate 2 0
            slotA := if s = .a then ⟨15, 0, 1, 0⟩ else ⟨14, 0, 1, 0⟩
            slotB := if s = .b then ⟨15, 0, 1, 0⟩ else ⟨14, 0, 1, 0⟩
            lastBoot := s.index
            reserved2 := .replicate 11 0
            crc32 := .replicate 4 0 })
    else fun _ => 0xFF
  cmdline := "console=ttyS0 android_slotsufix=_".toList ++ [s.suffix, '\n']
  journal := []

end LinuxOta
