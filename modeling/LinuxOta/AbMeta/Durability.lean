-- SUMMARY: Whether a switch that reports success is read back, on every flash type that `dl_flash_init` accepts.
import LinuxOta.AbMeta.Meta
import LinuxOta.Flash.FlashType

namespace LinuxOta

/-! # Durability of a switch

The drivers for NAND and NOR return 0 from every call and touch neither the flash nor the
buffer. -/

/-- The stored checksum is that of the record. -/
def AbData.CrcValid (d : AbData) : Prop := d.crc32.toList = bigEndianBytes (LinuxOta.crc32 0 d.body)

instance (d : AbData) : Decidable d.CrcValid := inferInstanceAs (Decidable (_ = _))

theorem AbData.crcValid_refreshCrc (d : AbData) : d.refreshCrc.CrcValid := store_big_toList _

namespace AbMeta

/-- What the system calls behind an operation on the record return. -/
structure OsAnswers where
  openRead : Int
  read : Transfer
  cmdline : CmdlineAnswer
  openWrite : Int
  write : Transfer
  deriving DecidableEq, Repr

end AbMeta

/-- What the installed driver answers. A null pointer fails. -/
def FlashState.answers (st : FlashState) (os : AbMeta.OsAnswers) : AbMeta.MetaAnswers :=
  match st.ops with
  | some ops => ⟨ops.opened os.openRead, ops.read os.read, os.cmdline, ops.opened os.openWrite,
      ops.write os.write⟩
  | none => ⟨-1, .failed, os.cmdline, -1, .failed 0⟩

namespace AbMeta

section
variable (g : FlashCtrl)

/-- `rk_ab_meta_read_data`: `ab_meta_read_data`, into the record of the caller. -/
def readDataInto (opened : Int) (read : ReadAnswer) (data : AbData) (m : Machine) :
    Int × AbData × Machine :=
  let (fd, m) := dlFlashOpenByName g opened miscPath m
  if fd < 0 then
    (-1, data, m)
  else
    let (ret, buf, m) := dlFlashRead g read fd miscPath metaDataOffset data.toBytes m
    let m := dlFlashClose g fd miscPath m
    if ret < 0 then (-1, AbData.ofBytes buf, m) else (ret, AbData.ofBytes buf, m)

/-- `rk_ab_meta_get_current_slot`; -1 is `none`. -/
def rkGetCurrentSlot (opened : Int) (read : ReadAnswer) (m : Machine) : Option Slot × Machine :=
  let (ret, d, m) := readData g opened read m
  if ret < 0 then (none, m) else (getCurrentSlot d, m)

end

section
variable (st : FlashState) (os : OsAnswers) (m : Machine)

/-- `rk_ab_meta_active_another_slot` through the installed driver. -/
def switchOn (host : Endian) : Int × Machine := activeAnotherSlot st.ctrl host (st.answers os) m

/-- `rk_ab_meta_read_data` through the installed driver. -/
def readOn (data : AbData) : Int × AbData × Machine :=
  readDataInto st.ctrl (st.answers os).openRead (st.answers os).read data m

/-- `rk_ab_meta_get_current_slot` through the installed driver. -/
def currentSlotOn : Option Slot × Machine :=
  rkGetCurrentSlot st.ctrl (st.answers os).openRead (st.answers os).read m

end

/-- The zeroed record of `rk_ab_meta.c`. -/
def zeroRecord : AbData := AbData.ofBytes (List.replicate 32 0)

/-- After a switch from slot `r` that reports success, every read that reports success gives a
record with a valid checksum that selects the other slot, and the other slot is the current one. -/
def Durable (st : FlashState) (host : Endian) (os : OsAnswers) (r : Slot) (m : Machine) : Prop :=
  0 ≤ (switchOn st os m host).1 → ∀ os',
    (∀ data, 0 ≤ (readOn st os' (switchOn st os m host).2 data).1 →
      (readOn st os' (switchOn st os m host).2 data).2.1.Selects r.other ∧
      (readOn st os' (switchOn st os m host).2 data).2.1.CrcValid) ∧
    (0 ≤ (readOn st os' (switchOn st os m host).2 zeroRecord).1 →
      (currentSlotOn st os' (switchOn st os m host).2).1 = some r.other)

variable {g : FlashCtrl} {st : FlashState} {host : Endian} {os : OsAnswers} {m : Machine} {r : Slot}

/-- A read into the caller's record fails, or leaves the stored record there, or leaves the
record alone. -/
theorem readDataInto_eq (g : FlashCtrl) (opened : Int) (read : ReadAnswer) (data : AbData)
    (m : Machine) :
    (readDataInto g opened read data m).1 = -1 ∨
      g.Opens opened ∧ (readDataInto g opened read data m).1 = 0 ∧
        (read = .filled ∧ (readDataInto g opened read data m).2.1 = m.record ∨
          read = .ignored ∧ (readDataInto g opened read data m).2.1 = data) := by
  by_cases ho : g.Opens opened
  swap
  · exact .inl (by simp [readDataInto, dlFlashOpenByName_fails ho])
  cases read with
  | failed =>
    exact .inl (by simp [readDataInto, dlFlashOpenByName_opens not_miscPath_lt ho,
      Int.not_lt.mpr ho.2, dlFlashRead, ho.1, ReadAnswer.ret])
  | filled =>
    refine .inr ⟨ho, ?_, .inl ⟨rfl, ?_⟩⟩ <;>
      simp [readDataInto, dlFlashOpenByName_opens not_miscPath_lt ho, Int.not_lt.mpr ho.2,
        dlFlashRead, ho.1, ReadAnswer.ret, Machine.record, recordAt]
  | ignored =>
    refine .inr ⟨ho, ?_, .inr ⟨rfl, ?_⟩⟩ <;>
      simp [readDataInto, dlFlashOpenByName_opens not_miscPath_lt ho, Int.not_lt.mpr ho.2,
        dlFlashRead, ho.1, ReadAnswer.ret, AbData.ofBytes_toBytes]

/-- A switch through the driver for eMMC that reports success has stored its record. -/
theorem record_of_block_success (hops : st.ops = some .block)
    (hrun : getRunningSlot os.cmdline m = some r) (hret : 0 ≤ (switchOn st os m host).1) :
    (switchOn st os m host).2.record = switchedRecord m.record r := by
  have heffect := activeAnotherSlot_effect host (g := st.ctrl) (m := m) (a := st.answers os)
  rw [switchOn, heffect.ret] at hret
  rw [switchOn, heffect.record]
  have hcmdline : (st.answers os).cmdline = os.cmdline := by simp [FlashState.answers, hops]
  cases hswitched : (st.answers os).switched st.ctrl m with
  | none => simp [hswitched, handedRet] at hret
  | some d =>
    obtain ⟨⟨-, hread, -⟩, current, hcurrent, rfl⟩ := MetaAnswers.switched_eq_some_iff.mp hswitched
    rw [hcmdline, hrun] at hcurrent
    obtain rfl := Option.some.inj hcurrent
    have hfilled : (st.answers os).read ≠ .ignored := by
      cases h : os.read <;> simp [FlashState.answers, hops, FlashOps.read, h]
    rw [bufferAfter_eq hfilled hread]
    cases hwrite : os.write with
    | complete =>
      have hstored : (st.answers os).write = .stored := by
        simp [FlashState.answers, hops, FlashOps.write, hwrite]
      rw [hstored, recordAt_handedMisc_stored]
    | cut n =>
      have hfailed : (st.answers os).write = .failed n := by
        simp [FlashState.answers, hops, FlashOps.write, hwrite]
      rw [hswitched, hfailed] at hret
      simp [handedRet, WriteAnswer.onRecord, WriteAnswer.ret] at hret

theorem readData_eq (opened : Int) (read : ReadAnswer) :
    readData g opened read m = readDataInto g opened read zeroRecord m := by
  have hbytes : zeroRecord.toBytes = List.replicate 32 0 := AbData.toBytes_ofBytes rfl
  rw [readData, readDataInto, hbytes]
  rfl

/-- The current slot is the one selected by the record that is read over zeros. -/
theorem currentSlotOn_eq (h : 0 ≤ (readOn st os m zeroRecord).1) :
    (currentSlotOn st os m).1 = getCurrentSlot (readOn st os m zeroRecord).2.1 := by
  rw [currentSlotOn, rkGetCurrentSlot, readData_eq]
  exact congrArg Prod.fst (if_neg (Int.not_lt.mpr h))

/-- A read through the driver for eMMC that reports success gives the stored record. -/
theorem readOn_block (hops : st.ops = some .block) {data : AbData} (h : 0 ≤ (readOn st os m data).1) :
    (readOn st os m data).2.1 = m.record := by
  rcases readDataInto_eq st.ctrl (st.answers os).openRead (st.answers os).read data m with
    hfail | ⟨-, -, hfilled | hignored⟩
  · rw [readOn, hfail] at h
    exact absurd h (by decide)
  · exact hfilled.2
  · cases h : os.read <;> simp [FlashState.answers, hops, FlashOps.read, h] at hignored

theorem durable_of_block (hops : st.ops = some .block) (hrun : getRunningSlot os.cmdline m = some r) :
    Durable st host os r m := by
  intro hret os'
  have hrecord := record_of_block_success hops hrun hret
  refine ⟨fun data hread => ?_, fun hread => ?_⟩
  · rw [readOn_block hops hread, hrecord]
    exact ⟨switchedRecord_selects m.record r, AbData.crcValid_refreshCrc _⟩
  · rw [currentSlotOn_eq hread, readOn_block hops hread, hrecord]
    exact switchedRecord_selects m.record r

theorem not_crcValid_zeroRecord : ¬ zeroRecord.CrcValid := by decide +kernel

/-- Through a driver that stores nothing, the switch reports success and the record of the
caller stays as it was. -/
theorem not_durable_of_stub (hinit : st.ctrl.isInit = true)
    (hstub : ∀ os, st.answers os = ⟨0, .ignored, os.cmdline, 0, .ignored⟩)
    (hrun : getRunningSlot os.cmdline m = some r) : ¬ Durable st host os r m := by
  intro hdurable
  have hopens : st.ctrl.Opens 0 := ⟨hinit, by decide⟩
  have hswitched : (st.answers os).switched st.ctrl m = some (switchedRecord zeroRecord r) := by
    rw [hstub]
    exact MetaAnswers.switched_eq_some_iff.mpr ⟨⟨hopens, by simp, hopens⟩, r, hrun, rfl⟩
  have hret : 0 ≤ (switchOn st os m host).1 := by
    rw [switchOn, (activeAnotherSlot_effect host).ret, hswitched, hstub]
    exact Int.le_refl 0
  have hread : ∀ m, readOn st os m zeroRecord =
      (0, zeroRecord, { m with journal := m.journal ++ readEvents }) := by
    intro m
    rw [readOn, hstub, ← readData_eq, readData_ok hopens (by simp)]
    rfl
  have hvalid := ((hdurable hret os).1 zeroRecord (by rw [hread])).2
  rw [hread] at hvalid
  exact not_crcValid_zeroRecord hvalid

/-- Once `dl_flash_init` has succeeded, a switch from the running slot is durable exactly on
eMMC. -/
theorem switch_durable_iff (opened read : Int) (st : FlashState) (host : Endian) (os : OsAnswers)
    (m : Machine) (r : Slot) (hfresh : st.ctrl.isInit = false)
    (hinit : (dlFlashInit opened read m.cmdline st).1 = 0)
    (hrun : getRunningSlot os.cmdline m = some r) :
    Durable (dlFlashInit opened read m.cmdline st).2 host os r m ↔
      getFlashType opened read m.cmdline = some .emmc := by
  obtain ⟨t, ops, htype, htable, hon, hops⟩ := dlFlashInit_success hfresh hinit
  rw [htype, Option.some.injEq]
  cases t with
  | emmc =>
    obtain rfl := Option.some.inj htable
    exact iff_of_true (durable_of_block hops hrun) rfl
  | spiNand =>
    obtain rfl := Option.some.inj htable
    refine iff_of_false (not_durable_of_stub hon (fun os => ?_) hrun) (by decide)
    simp only [FlashState.answers, hops, FlashOps.opened, FlashOps.read, FlashOps.write]
  | spiNor =>
    obtain rfl := Option.some.inj htable
    refine iff_of_false (not_durable_of_stub hon (fun os => ?_) hrun) (by decide)
    simp only [FlashState.answers, hops, FlashOps.opened, FlashOps.read, FlashOps.write]
  | butt => simp [FlashType.ops] at htable

/-- A device running from slot `s`, with this flash storage on its command line. -/
def deviceWith (storage : String) (s : Slot) : Machine :=
  { deviceOn s with
    cmdline := "storagemedia=".toList ++ storage.toList ++ " android_slotsufix=_".toList ++ [s.suffix, '\n'] }

/-- System calls that all go through. -/
def OsAnswers.healthy : OsAnswers := ⟨3, .complete, ⟨true, 511⟩, 3, .complete⟩

theorem switch_durable_emmc :
    Durable (dlFlashInit 3 100 (deviceWith "emmc" .a).cmdline ⟨⟨false, 0⟩, none⟩).2 .little .healthy .a
      (deviceWith "emmc" .a) :=
  (switch_durable_iff 3 100 ⟨⟨false, 0⟩, none⟩ .little .healthy (deviceWith "emmc" .a) .a rfl
    (by decide +kernel) (by decide +kernel)).mpr (by decide +kernel)

/-- On SPI NAND the switch reports success, and the caller reads zeros afterwards. -/
theorem switch_lost_on_nand :
    ¬ ∀ (opened read : Int) (st : FlashState) (host : Endian) (os : OsAnswers) (m : Machine) (r : Slot),
      st.ctrl.isInit = false → (dlFlashInit opened read m.cmdline st).1 = 0 →
      getRunningSlot os.cmdline m = some r →
      Durable (dlFlashInit opened read m.cmdline st).2 host os r m := by
  intro h
  have hdurable := h 3 100 ⟨⟨false, 0⟩, none⟩ .little .healthy (deviceWith "nand" .a) .a rfl
    (by decide +kernel) (by decide +kernel)
  have hret : 0 ≤ (switchOn (dlFlashInit 3 100 (deviceWith "nand" .a).cmdline ⟨⟨false, 0⟩, none⟩).2
      .healthy (deviceWith "nand" .a) .little).1 := by decide +kernel
  have hvalid := ((hdurable hret .healthy).1 zeroRecord (by decide +kernel)).2
  exact absurd hvalid (by decide +kernel)

end AbMeta
end LinuxOta
