-- SUMMARY: Processes that operate on the record without a lock: it is what some of their calls make of it one after the other.
import LinuxOta.Base.Race
import LinuxOta.Boot.RecordRuns
import LinuxOta.Boot.Validation

namespace LinuxOta

/-! # Races for the record

Neither module locks the record, so that another process may write it between the read and
the write of an operation. -/

/-- The machine with another record. -/
def Machine.withRecord (m : Machine) (d : AbData) : Machine :=
  m.withDev miscPath ((m.devs miscPath).overwrite metaDataOffset d.toBytes)

@[simp] theorem Machine.record_withRecord (m : Machine) (d : AbData) : (m.withRecord d).record = d := by
  rw [Machine.record, Machine.withRecord, Machine.withDev_devs_self, recordAt_overwrite]

/-- A call of an operation, by a process with its own flash layer. -/
structure OpCall where
  flash : FlashCtrl
  op : RecordOp
  answers : OpAnswers

namespace OpCall

def exec (host : Endian) (c : OpCall) (m : Machine) : Int × Machine := c.op.exec c.flash host c.answers m

/-- The record the call hands to its write, on the machine it reads it from. -/
def handed (c : OpCall) (m : Machine) : Option AbData :=
  match c.op with
  | .activeCurrentSlot => c.answers.abMeta.confirmed c.flash m
  | .activeAnotherSlot => c.answers.abMeta.switched c.flash m
  | .setSlotSucceed build => c.answers.ota.confirmed build m
  | .setSlotActivity => c.answers.ota.switched m

def write (c : OpCall) : RecordWrite :=
  match c.op with
  | .activeCurrentSlot => c.answers.abMeta.write.onRecord
  | .activeAnotherSlot => c.answers.abMeta.write.onRecord
  | .setSlotSucceed _ => c.answers.ota.write.onRecord
  | .setSlotActivity => c.answers.ota.write.onRecord

/-- The write stores the record whole or not at all. -/
def Atomic (c : OpCall) : Prop :=
  match c.op with
  | .activeCurrentSlot => c.answers.abMeta.Atomic
  | .activeAnotherSlot => c.answers.abMeta.Atomic
  | .setSlotSucceed _ => c.answers.ota.Atomic
  | .setSlotActivity => c.answers.ota.Atomic

/-- A call is what it hands over, and the write of it. -/
theorem exec_change (host : Endian) (c : OpCall) (m : Machine) :
    RecordChange c.write (c.handed m) m (c.exec host m).2 := by
  obtain ⟨flash, op, answers⟩ := c
  cases op with
  | activeCurrentSlot => exact (AbMeta.activeCurrentSlot_effect host).toRecordChange
  | activeAnotherSlot => exact (AbMeta.activeAnotherSlot_effect host).toRecordChange
  | setSlotSucceed build => exact Bootloader.setSlotSucceed_change
  | setSlotActivity => exact (Bootloader.setSlotActivity_effect host).toRecordChange

theorem Atomic.recordStep {host : Endian} {c : OpCall} (h : c.Atomic) (m : Machine) :
    RecordStep host m (c.exec host m).2 := by
  obtain ⟨flash, op, answers⟩ := c
  cases op with
  | activeCurrentSlot => exact .activeCurrentSlot flash answers.abMeta h
  | activeAnotherSlot => exact .activeAnotherSlot flash answers.abMeta h
  | setSlotSucceed build => exact .setSlotSucceed build answers.ota h
  | setSlotActivity => exact .setSlotActivity answers.ota h

/-- The write stores the record. -/
def stores (c : OpCall) : Bool :=
  let stored := decide (c.answers.abMeta.write = .stored)
  let storedOta := match c.answers.ota.write with
    | .stored => true
    | _ => false
  match c.op with
  | .activeCurrentSlot => stored
  | .activeAnotherSlot => stored
  | .setSlotSucceed _ => storedOta
  | .setSlotActivity => storedOta

theorem abMeta_land {a : AbMeta.MetaAnswers} (h : a.Atomic) (b : Bytes) (misc : Content) :
    a.write.onRecord.land b misc =
      if decide (a.write = .stored) then misc.overwrite metaDataOffset b else misc := by
  rw [AbMeta.MetaAnswers.Atomic] at h
  cases hwrite : a.write with
  | stored => simp [WriteAnswer.onRecord, WriteAnswer.reached]
  | ignored => simp [WriteAnswer.onRecord, WriteAnswer.reached]
  | failed n =>
    rw [hwrite] at h
    obtain rfl : n = 0 := h
    simp [WriteAnswer.onRecord, WriteAnswer.reached]

theorem ota_land {a : Bootloader.SlotAnswers} (h : a.Atomic) (b : Bytes) (misc : Content) :
    a.write.onRecord.land b misc =
      if (match a.write with | .stored => true | _ => false) then misc.overwrite metaDataOffset b else misc := by
  rw [Bootloader.SlotAnswers.Atomic] at h
  cases hwrite : a.write with
  | stored => rfl
  | notOpened => rfl
  | failed left =>
    rw [hwrite] at h
    exact h misc

theorem Atomic.land {c : OpCall} (h : c.Atomic) (b : Bytes) (misc : Content) :
    c.write.land b misc = if c.stores then misc.overwrite metaDataOffset b else misc := by
  obtain ⟨flash, op, answers⟩ := c
  cases op with
  | activeCurrentSlot => exact abMeta_land h b misc
  | activeAnotherSlot => exact abMeta_land h b misc
  | setSlotSucceed build => exact ota_land h b misc
  | setSlotActivity => exact ota_land h b misc

/-- What is handed over depends on the record and on the command line. -/
theorem handed_congr (c : OpCall) {m m' : Machine} (hrecord : m.record = m'.record)
    (hcmdline : m.cmdline = m'.cmdline) : c.handed m = c.handed m' := by
  have hbuffer : ∀ read, AbMeta.bufferAfter read m = AbMeta.bufferAfter read m' := by
    intro read
    cases read with
    | filled => exact hrecord
    | ignored => rfl
    | failed => rfl
  have hslot : ∀ answer, AbMeta.getRunningSlot answer m = AbMeta.getRunningSlot answer m' := by
    intro answer
    simp only [AbMeta.getRunningSlot, hcmdline]
  obtain ⟨flash, op, answers⟩ := c
  cases op with
  | activeCurrentSlot => simp only [handed, AbMeta.MetaAnswers.confirmed, hbuffer]
  | activeAnotherSlot => simp only [handed, AbMeta.MetaAnswers.switched, hbuffer, hslot]
  | setSlotSucceed build => simp only [handed, Bootloader.SlotAnswers.confirmed, hrecord]
  | setSlotActivity => simp only [handed, Bootloader.SlotAnswers.switched, hrecord]

/-- The record the call stores where it has read `d`, on a machine that is `m` otherwise. -/
def effect (m : Machine) (c : OpCall) (d : AbData) : Option AbData :=
  if c.stores then c.handed (m.withRecord d) else none

/-- The record after the write of what was handed over. -/
theorem Atomic.recordAt_handedMisc {c : OpCall} (h : c.Atomic) (misc : Content) (d : Option AbData) :
    recordAt (handedMisc c.write misc d) = if c.stores then d.getD (recordAt misc) else recordAt misc := by
  cases d with
  | none => exact (ite_self _).symm
  | some d =>
    rw [handedMisc, h.land]
    cases c.stores with
    | false => rfl
    | true => exact recordAt_overwrite misc d

theorem Atomic.record_write {c : OpCall} (h : c.Atomic) {m : Machine} (misc : Content) (d : AbData) :
    recordAt (handedMisc c.write misc (c.handed (m.withRecord d))) = (c.effect m d).getD (recordAt misc) := by
  rw [h.recordAt_handedMisc, effect]
  cases c.stores with
  | false => rfl
  | true => rfl

theorem Atomic.record_exec {c : OpCall} (h : c.Atomic) (host : Endian) {m m' : Machine}
    (hcmdline : m'.cmdline = m.cmdline) :
    (c.exec host m').2.record = (c.effect m m'.record).getD m'.record := by
  have hhanded : c.handed m' = c.handed (m.withRecord m'.record) :=
    c.handed_congr (m.record_withRecord m'.record).symm hcmdline
  rw [(c.exec_change host m').record, hhanded, h.record_write]
  rfl

/-- Calls one after the other. -/
def execAll (host : Endian) (calls : List OpCall) (m : Machine) : Machine :=
  calls.foldl (fun m c => (c.exec host m).2) m

theorem record_execAll (host : Endian) {m : Machine} (calls : List OpCall) :
    ∀ m' : Machine, m'.cmdline = m.cmdline → (∀ c ∈ calls, c.Atomic) →
      (execAll host calls m').record = Race.serial (effect m) calls m'.record := by
  induction calls with
  | nil => exact fun _ _ _ => rfl
  | cons c calls ih =>
    intro m' hcmdline hatomic
    obtain ⟨hc, hcalls⟩ := List.forall_mem_cons.mp hatomic
    rw [execAll, List.foldl_cons, ← execAll, Race.serial_cons, ← hc.record_exec host hcmdline]
    exact ih _ ((c.exec_change host m').performs.cmdline.trans hcmdline) hcalls

/-- What calls keep that follow each other. -/
theorem execAll_keeps (host : Endian) {d₀ : AbData} (calls : List OpCall) :
    ∀ m : Machine, (∀ c ∈ calls, c.Atomic) → m.record.WellFormed ∧ AbData.Revises d₀ m.record →
      (execAll host calls m).record.WellFormed ∧ AbData.Revises d₀ (execAll host calls m).record := by
  induction calls with
  | nil => exact fun _ _ h => h
  | cons c calls ih =>
    intro m hatomic h
    obtain ⟨hc, hcalls⟩ := List.forall_mem_cons.mp hatomic
    have hstep : RecordStep host m (c.exec host m).2 := hc.recordStep m
    exact ih _ hcalls (hstep.keeps h)

end OpCall

/-! ## Processes -/

/-- The machine, and what each process has in hand to write. -/
structure Contest (ι : Type) where
  machine : Machine
  inHand : ι → Option (OpCall × Option AbData)

namespace Contest

variable {ι : Type} [DecidableEq ι]

/-- A process reads the record for a call, or does the write of the call. -/
def step (s : Contest ι) : Race.Event ι OpCall → Contest ι
  | .read i c => { s with inHand := Function.update s.inHand i (some (c, c.handed s.machine)) }
  | .write i =>
    match s.inHand i with
    | none => s
    | some (c, d) =>
      ⟨s.machine.withDev miscPath (handedMisc c.write (s.machine.devs miscPath) d), Function.update s.inHand i none⟩

def run (s : Contest ι) (es : List (Race.Event ι OpCall)) : Contest ι := es.foldl step s

/-- Nothing is in hand. -/
def start (m : Machine) : Contest ι := ⟨m, fun _ => none⟩

/-- A process that is not disturbed makes a call. -/
theorem devs_step_step (host : Endian) (s : Contest ι) (i : ι) (c : OpCall) :
    ((s.step (.read i c)).step (.write i)).machine.devs = (c.exec host s.machine).2.devs := by
  rw [(c.exec_change host s.machine).devs]
  simp only [step, Function.update_self]
  rfl

/-- The contest is a race for the record. -/
structure Follows (m : Machine) (s : Contest ι) (r : Race.State ι OpCall AbData) : Prop where
  record : s.machine.record = r.current.value
  cmdline : s.machine.cmdline = m.cmdline
  inHand : ∀ i, s.inHand i = (r.begun i).map fun b => (b.op, b.op.handed (m.withRecord b.value))
  begun : ∀ i b, r.begun i = some b → b.op.Atomic
  written : ∀ c ∈ r.written, c.Atomic

variable {m : Machine} {s : Contest ι} {r : Race.State ι OpCall AbData}

omit [DecidableEq ι] in
theorem follows_start (m : Machine) : (start m : Contest ι).Follows m (Race.start m.record) where
  record := rfl
  cmdline := rfl
  inHand _ := rfl
  begun i b hb := by simp [Race.start] at hb
  written c hc := by simp [Race.start] at hc

theorem Follows.read (h : s.Follows m r) (i : ι) {c : OpCall} (hatomic : c.Atomic) :
    (s.step (.read i c)).Follows m (Race.step (OpCall.effect m) r (.read i c)) := by
  refine ⟨h.record, h.cmdline, fun j => ?_, fun j b hb => ?_, h.written⟩
  · simp only [step, Race.step]
    rcases eq_or_ne j i with rfl | hne
    · have hhanded : c.handed s.machine = c.handed (m.withRecord r.current.value) :=
        c.handed_congr (by rw [h.record, Machine.record_withRecord]) h.cmdline
      rw [Function.update_self, Function.update_self, hhanded]
      rfl
    · rw [Function.update_of_ne hne, Function.update_of_ne hne]
      exact h.inHand j
  · simp only [Race.step] at hb
    rcases eq_or_ne j i with rfl | hne
    · rw [Function.update_self] at hb
      obtain rfl := Option.some.inj hb
      exact hatomic
    · rw [Function.update_of_ne hne] at hb
      exact h.begun j b hb

theorem Follows.write (h : s.Follows m r) (i : ι) :
    (s.step (.write i)).Follows m (Race.step (OpCall.effect m) r (.write i)) := by
  have hhand := h.inHand i
  cases hb : r.begun i with
  | none =>
    rw [hb] at hhand
    simpa only [step, hhand, Race.step, hb, Option.map_none] using h
  | some b =>
    have hatomic := h.begun i b hb
    have hcleared : ∀ j, Function.update s.inHand i none j =
        (Function.update r.begun i none j).map fun b => (b.op, b.op.handed (m.withRecord b.value)) := by
      intro j
      rcases eq_or_ne j i with rfl | hne
      · simp
      · rw [Function.update_of_ne hne, Function.update_of_ne hne]
        exact h.inHand j
    have hbegun : ∀ j b', Function.update r.begun i none j = some b' → b'.op.Atomic := by
      intro j b' hb'
      rcases eq_or_ne j i with rfl | hne
      · simp at hb'
      · rw [Function.update_of_ne hne] at hb'
        exact h.begun j b' hb'
    have hstep : s.step (.write i) = ⟨s.machine.withDev miscPath (handedMisc b.op.write
        (s.machine.devs miscPath) (b.op.handed (m.withRecord b.value))), Function.update s.inHand i none⟩ := by
      simp only [step, hhand, hb, Option.map_some]
    have hrecord : (s.step (.write i)).machine.record = (b.op.effect m b.value).getD r.current.value := by
      rw [hstep, Machine.record, Machine.withDev_devs_self, hatomic.record_write, ← h.record]
      rfl
    have hinHand : (s.step (.write i)).inHand = Function.update s.inHand i none := by rw [hstep]
    have hcmdline : (s.step (.write i)).machine.cmdline = m.cmdline := by
      rw [hstep]
      exact h.cmdline
    cases hv : b.op.effect m b.value with
    | none =>
      have hrace : Race.step (OpCall.effect m) r (.write i) =
          { r with begun := Function.update r.begun i none } := by
        simp only [Race.step, hb, hv]
      rw [hv] at hrecord
      rw [hrace]
      exact ⟨hrecord, hcmdline, fun j => hinHand ▸ hcleared j, hbegun, h.written⟩
    | some d =>
      rw [hv] at hrecord
      rw [Race.step_write hb hv]
      refine ⟨hrecord, hcmdline, fun j => hinHand ▸ hcleared j, hbegun, fun c hc => ?_⟩
      rcases List.mem_append.mp hc with hc | hc
      · exact h.written c hc
      · rw [List.mem_singleton.mp hc]
        exact hatomic

theorem Follows.run (es : List (Race.Event ι OpCall)) :
    ∀ {s : Contest ι} {r : Race.State ι OpCall AbData}, s.Follows m r →
      (∀ i c, Race.Event.read i c ∈ es → c.Atomic) →
      (s.run es).Follows m (Race.run (OpCall.effect m) r es) := by
  induction es with
  | nil => exact fun h _ => h
  | cons e es ih =>
    intro s r h hatomic
    have hrest := fun i c hc => hatomic i c (List.mem_cons_of_mem _ hc)
    cases e with
    | read i c => exact ih (h.read i (hatomic i c List.mem_cons_self)) hrest
    | write i => exact ih (h.write i) hrest

end Contest

/-- Processes read and write the record in any order. It is then what some of the calls that
wrote make of the first record one after the other, and so well formed; and it is what all of
them make of it just when no write came between the read and the write of a call. -/
theorem record_race {ι : Type} [DecidableEq ι] (host : Endian) (m : Machine) (h : m.record.WellFormed)
    (es : List (Race.Event ι OpCall)) (hatomic : ∀ i c, Race.Event.read i c ∈ es → c.Atomic) :
    let s := (Contest.start m).run es
    let r := Race.run (OpCall.effect m) (Race.start m.record) es
    s.machine.record = (OpCall.execAll host r.current.origin m).record ∧
      r.current.origin.Sublist r.written ∧
      (r.current.origin = r.written ↔ Race.Isolated (OpCall.effect m) (Race.start m.record) es) ∧
      s.machine.record.WellFormed ∧ AbData.KeepsIdentity m.record s.machine.record ∧
      ∃ t, AbMeta.getCurrentSlot s.machine.record = some t ∧
        Bootloader.getCurrentSlot s.machine.record = some t := by
  intro s r
  have hfollows : s.Follows m r := (Contest.follows_start m).run es hatomic
  have hstart : Race.Consistent (OpCall.effect m) m.record (Race.start m.record : Race.State ι OpCall AbData) :=
    Race.consistent_start m.record
  obtain ⟨hvalue, hsublist⟩ := (hstart.run es).current
  have horigin : ∀ c ∈ r.current.origin, c.Atomic := fun c hc => hfollows.written c (hsublist.subset hc)
  have hserial : s.machine.record = (OpCall.execAll host r.current.origin m).record := by
    rw [hfollows.record, OpCall.record_execAll host _ m rfl horigin]
    exact hvalue
  obtain ⟨hwf, hrevises⟩ := OpCall.execAll_keeps host _ m horigin ⟨h, h.toValid.revises⟩
  rw [← hserial] at hwf hrevises
  obtain ⟨u, hboot⟩ := hwf.lastBoot
  obtain ⟨t, hselects⟩ := AbData.exists_selects hboot
  refine ⟨hserial, hsublist, ?_, hwf, hrevises.toKeepsIdentity, t, hselects, ?_⟩
  · rw [hstart.shows_run_iff es]
    exact and_iff_right rfl
  · rw [Bootloader.getCurrentSlot_eq]
    exact hselects

theorem wellFormed_checkedDevice : checkedDevice.record.WellFormed := by
  have hvalid : (deviceOn .a).record.Valid := by
    refine ⟨fun s => ?_, fun s => ?_, .a, by decide +kernel⟩
    · cases s <;> decide +kernel
    · cases s <;> decide +kernel
  rw [checkedDevice, Machine.record_lower]
  exact (hvalid.revises.lowered UInt8.zero_le).wellFormed_refreshCrc

/-- A process reads the record to confirm the boot, and writes it after another one has switched
the slots. -/
def lostSwitch : List (Race.Event Bool OpCall) :=
  [.read false ⟨⟨true, 512⟩, .setSlotSucceed ⟨false, false⟩, RecordOp.healthyAnswers⟩,
    .read true ⟨⟨true, 512⟩, .setSlotActivity, RecordOp.healthyAnswers⟩, .write true, .write false]

theorem record_race_lostSwitch :
    ((Contest.start checkedDevice).run lostSwitch).machine.record =
      (OpCall.execAll .little [⟨⟨true, 512⟩, .setSlotSucceed ⟨false, false⟩, RecordOp.healthyAnswers⟩]
        checkedDevice).record := by
  have hatomic : ∀ i c, Race.Event.read i c ∈ lostSwitch → c.Atomic := by
    intro i c hc
    simp only [lostSwitch, List.mem_cons, Race.Event.read.injEq, reduceCtorEq, List.not_mem_nil, or_false] at hc
    obtain ⟨-, rfl⟩ | ⟨-, rfl⟩ := hc
    · trivial
    · trivial
  have hrace := record_race .little checkedDevice wellFormed_checkedDevice lostSwitch hatomic
  exact hrace.1

end LinuxOta
