-- SUMMARY: Processes that write ranges of misc at once: on MTD a write can undo those of other ranges, on block devices it cannot.
import LinuxOta.Base.Race
import LinuxOta.Ota.MiscUsers

namespace LinuxOta.Misc

open Mtd

/-! # Races for misc

`writeMisc_mtd` reads all of the partition and writes all of it back, and takes no lock. Another
process may write misc in between. Each of these two passes over the partition counts as one
step here: the passes of different processes follow on each other in any order, and do not
overlap. -/

/-- A call of `writeMisc`. -/
structure RangeWrite where
  buf : Bytes
  offset : Nat

namespace RangeWrite

/-- The write lies in misc. -/
def Fits (w : RangeWrite) (dev : Device) : Prop := w.offset + w.buf.length ≤ dev.store.size

/-- What a call makes of the content it starts from. -/
def effect (w : RangeWrite) (c : Content) : Option Content := some (c.overwrite w.offset w.buf)

end RangeWrite

/-- Only what is to be written matters. -/
theorem writeBack_congr {ρ ω : Type} (w w' : RangeWrite) (a : MtdAccess ρ ω) (part : MtdPartition)
    {data data' : Bytes} (h : data.take w.offset ++ w.buf ++ data.drop (w.offset + w.buf.length) =
      data'.take w'.offset ++ w'.buf ++ data'.drop (w'.offset + w'.buf.length)) :
    writeBack a w.buf w.offset (some (part, data)) = writeBack a w'.buf w'.offset (some (part, data')) := by
  simp only [writeBack, h]

/-- The rest of `writeMisc`, where `total` is what `writeMisc_mtd` has read. -/
def Device.finish (dev : Device) (w : RangeWrite) (total : Option (MtdPartition × Bytes)) (c : Content) :
    Int × Content :=
  if isMtdDevice dev.param then
    let (ret, state) := writeBack (dev.store.mtdAccess c) w.buf w.offset total
    (ret, match state with
      | some state => state.content
      | none => c)
  else writeMiscBlock (dev.store.blockAccess c) w.buf w.offset

/-- A process that is not disturbed makes a call. -/
theorem Device.finish_readTotal (dev : Device) (w : RangeWrite) (c : Content) :
    dev.finish w (readTotal (dev.store.mtdAccess c)) c = dev.writeMisc w.buf w.offset c := by
  rw [Device.finish, Device.writeMisc, Misc.writeMisc, writeMiscMtd]
  obtain ⟨param, store⟩ := dev
  split
  · cases store <;> rfl
  · rfl

/-- Misc, and what each process has in hand to write. -/
structure Contest (ι : Type) where
  content : Content
  inHand : ι → Option (RangeWrite × Option (MtdPartition × Bytes))

namespace Contest

variable {ι : Type} [DecidableEq ι] (dev : Device)

/-- A process reads the partition for a call, or does the rest of the call. Either is one step,
though the code goes on block by block. -/
def step (s : Contest ι) : Race.Event ι RangeWrite → Contest ι
  | .read i w => { s with inHand := Function.update s.inHand i (some (w, readTotal (dev.store.mtdAccess s.content))) }
  | .write i =>
    match s.inHand i with
    | none => s
    | some (w, total) => ⟨(dev.finish w total s.content).2, Function.update s.inHand i none⟩

def run (s : Contest ι) (es : List (Race.Event ι RangeWrite)) : Contest ι := es.foldl (step dev) s

/-- Nothing is in hand. -/
def start (c : Content) : Contest ι := ⟨c, fun _ => none⟩

end Contest

/-! ## What is written back -/

theorem readTotal_mtd {param : List Char} {part : MtdPartition} {left : Content}
    (hdev : Device.FaultFree ⟨param, .mtd part left⟩) (c : Content) :
    readTotal (Store.mtdAccess c (.mtd part left)) = some (part, c.read 0 part.size) := by
  obtain ⟨-, hsize, hmul⟩ :
      isMtdDevice param = true ∧ part.size < 2 ^ 31 ∧ part.eraseSize ∣ part.size := hdev
  rw [Store.mtdAccess, readTotal_withBad (fun _ => false) (fun _ => Block.healthy) left c hsize hmul]
  exact if_pos fun _ _ => rfl

/-- On MTD the content that was read is written back, with the range replaced. -/
theorem Device.finish_mtd {param : List Char} {part : MtdPartition} {left : Content}
    (hdev : Device.FaultFree ⟨param, .mtd part left⟩) {w : RangeWrite} (hfits : w.Fits ⟨param, .mtd part left⟩)
    (c d : Content) :
    Device.Same ⟨param, .mtd part left⟩
      (Device.finish ⟨param, .mtd part left⟩ w (readTotal (Store.mtdAccess d (.mtd part left))) c).2
      (d.overwrite w.offset w.buf) := by
  obtain ⟨hparam, hsize, hmul⟩ :
      isMtdDevice param = true ∧ part.size < 2 ^ 31 ∧ part.eraseSize ∣ part.size := hdev
  have hlen : ((d.overwrite w.offset w.buf).read 0 part.size).length = part.size := Content.read_length _ _ _
  -- it is a write of all of the partition
  have hmerged : (d.read 0 part.size).take w.offset ++ w.buf ++
      (d.read 0 part.size).drop (w.offset + w.buf.length) = (d.overwrite w.offset w.buf).read 0 part.size :=
    (Content.read_zero_overwrite hfits).symm
  have hwhole : writeBack (Store.mtdAccess c (.mtd part left)) w.buf w.offset (some (part, d.read 0 part.size)) =
      writeMiscMtd (Store.mtdAccess c (.mtd part left)) ((d.overwrite w.offset w.buf).read 0 part.size) 0 := by
    rw [writeMiscMtd, readTotal_mtd ⟨hparam, hsize, hmul⟩]
    refine writeBack_congr w ⟨(d.overwrite w.offset w.buf).read 0 part.size, 0⟩ _ part ?_
    rw [hmerged, List.take_zero, List.nil_append, Nat.zero_add, hlen,
      List.drop_eq_nil_of_le (Nat.le_of_eq (Content.read_length _ _ _)), List.append_nil]
  have hall : 0 + ((d.overwrite w.offset w.buf).read 0 part.size).length ≤ part.size := by rw [hlen, Nat.zero_add]
  have hgood : ∀ i < part.size / part.eraseSize, (fun _ => false) i = false := fun _ _ => rfl
  obtain ⟨s, hret, hcontent⟩ := writeMiscMtd_of_no_bad (fun _ => Block.healthy) left c hsize hmul hgood hall
  have hres : Device.finish ⟨param, .mtd part left⟩ w (readTotal (Store.mtdAccess d (.mtd part left))) c =
      (0, s.content) := by
    rw [readTotal_mtd ⟨hparam, hsize, hmul⟩]
    simp only [Device.finish, hparam, ↓reduceIte, hwhole]
    rw [Store.mtdAccess, hret]
  rw [hres]
  apply Device.same_of_read
  show s.content.read 0 part.size = (d.overwrite w.offset w.buf).read 0 part.size
  have hread := Content.read_overwrite c 0 ((d.overwrite w.offset w.buf).read 0 part.size)
  rw [hlen] at hread
  rw [hcontent, hread]

/-- A block device only gets the range. -/
theorem Device.finish_block {param : List Char} {size : Nat} (hdev : Device.FaultFree ⟨param, .block size⟩)
    {w : RangeWrite} (hfits : w.Fits ⟨param, .block size⟩) (total : Option (MtdPartition × Bytes)) (c : Content) :
    (Device.finish ⟨param, .block size⟩ w total c).2 = c.overwrite w.offset w.buf := by
  have hparam : isMtdDevice param = false := hdev
  have hcount := count_of_le (c := c) (show w.offset + w.buf.length ≤ size from hfits)
  simp [Device.finish, hparam, writeMiscBlock, Store.blockAccess, hcount, BlockAccess.pos]

/-- The bytes around the range, after a write behind a read of `read`. -/
def Store.basis (read now : Content) : Store → Content
  | block _ => now
  | mtd _ _ => read

theorem Device.finish_same {dev : Device} (hdev : dev.FaultFree) {w : RangeWrite} (hfits : w.Fits dev)
    (c d : Content) :
    dev.Same (dev.finish w (readTotal (dev.store.mtdAccess d)) c).2
      ((dev.store.basis d c).overwrite w.offset w.buf) := by
  obtain ⟨param, store⟩ := dev
  cases store with
  | block size =>
    rw [Device.finish_block hdev hfits]
    exact fun _ _ => rfl
  | mtd part left => exact Device.finish_mtd hdev hfits c d

/-- What is read depends on misc. -/
theorem Device.Same.readTotal {dev : Device} (hdev : dev.FaultFree) {c d : Content} (h : dev.Same c d) :
    readTotal (dev.store.mtdAccess c) = readTotal (dev.store.mtdAccess d) := by
  obtain ⟨param, store⟩ := dev
  cases store with
  | block size => rfl
  | mtd part left =>
    have hread : c.read 0 part.size = d.read 0 part.size := h.read (Nat.le_of_eq (Nat.zero_add _))
    show Misc.readTotal (Store.mtdAccess c (.mtd part left)) = Misc.readTotal (Store.mtdAccess d (.mtd part left))
    rw [readTotal_mtd hdev, readTotal_mtd hdev, hread]

/-! ## Races -/

/-- The content a race leaves that started with `c`. -/
def Store.shown {ι : Type} (c : Content) (r : Race.State ι RangeWrite Content) : Store → Content
  | block _ => Race.serial RangeWrite.effect r.written c
  | mtd _ _ => r.current.value

namespace Contest

variable {ι : Type} [DecidableEq ι] {dev : Device} {s : Contest ι} {r : Race.State ι RangeWrite Content}
  {c : Content}

/-- The contest is a race for the content. -/
structure Follows (dev : Device) (c : Content) (s : Contest ι) (r : Race.State ι RangeWrite Content) : Prop where
  content : dev.Same s.content (dev.store.shown c r)
  inHand : ∀ i, s.inHand i = (r.begun i).map fun b => (b.op, readTotal (dev.store.mtdAccess b.value))
  fits : ∀ i b, r.begun i = some b → b.op.Fits dev

omit [DecidableEq ι] in
theorem follows_start (dev : Device) (c : Content) : (start c : Contest ι).Follows dev c (Race.start c) := by
  refine ⟨?_, fun i => rfl, fun i b hb => by simp [Race.start] at hb⟩
  obtain ⟨param, store⟩ := dev
  cases store <;> exact fun _ _ => rfl

omit [DecidableEq ι] in
/-- What is read is what the race has read. -/
theorem Follows.readTotal (h : s.Follows dev c r) (hdev : dev.FaultFree) :
    Misc.readTotal (dev.store.mtdAccess s.content) = Misc.readTotal (dev.store.mtdAccess r.current.value) := by
  have hsame := h.content
  obtain ⟨param, store⟩ := dev
  cases store with
  | block size => rfl
  | mtd part left => exact hsame.readTotal hdev

theorem Follows.read (h : s.Follows dev c r) (hdev : dev.FaultFree) (i : ι) {w : RangeWrite} (hfits : w.Fits dev) :
    (s.step dev (.read i w)).Follows dev c (Race.step RangeWrite.effect r (.read i w)) := by
  refine ⟨?_, fun j => ?_, fun j b hb => ?_⟩
  · have hsame := h.content
    obtain ⟨param, store⟩ := dev
    cases store <;> exact hsame
  · simp only [Contest.step, Race.step]
    rcases eq_or_ne j i with rfl | hne
    · rw [Function.update_self, Function.update_self, h.readTotal hdev]
      rfl
    · rw [Function.update_of_ne hne, Function.update_of_ne hne]
      exact h.inHand j
  · simp only [Race.step] at hb
    rcases eq_or_ne j i with rfl | hne
    · rw [Function.update_self] at hb
      obtain rfl := Option.some.inj hb
      exact hfits
    · rw [Function.update_of_ne hne] at hb
      exact h.fits j b hb

theorem Follows.write (h : s.Follows dev c r) (hdev : dev.FaultFree) (i : ι) :
    (s.step dev (.write i)).Follows dev c (Race.step RangeWrite.effect r (.write i)) := by
  have hhand := h.inHand i
  cases hb : r.begun i with
  | none =>
    rw [hb] at hhand
    simpa only [Contest.step, hhand, Race.step, hb, Option.map_none] using h
  | some b =>
    rw [hb, Option.map_some] at hhand
    have hstep : s.step dev (.write i) = ⟨(dev.finish b.op (Misc.readTotal (dev.store.mtdAccess b.value)) s.content).2,
        Function.update s.inHand i none⟩ := by
      simp only [Contest.step, hhand]
    rw [hstep, Race.step_write hb rfl]
    refine ⟨?_, fun j => ?_, fun j b' hb' => ?_⟩
    · refine (Device.finish_same hdev (h.fits i b hb) s.content b.value).trans ?_
      have hsame := h.content
      obtain ⟨param, store⟩ := dev
      cases store with
      | block size =>
        show Device.Same _ (s.content.overwrite b.op.offset b.op.buf) (Race.serial RangeWrite.effect (r.written ++ [b.op]) c)
        rw [Race.serial_concat]
        exact hsame.overwrite _ _
      | mtd part left => exact fun _ _ => rfl
    · dsimp only
      rcases eq_or_ne j i with rfl | hne
      · simp
      · rw [Function.update_of_ne hne, Function.update_of_ne hne]
        exact h.inHand j
    · dsimp only at hb'
      rcases eq_or_ne j i with rfl | hne
      · simp at hb'
      · rw [Function.update_of_ne hne] at hb'
        exact h.fits j b' hb'

theorem Follows.run (hdev : dev.FaultFree) (es : List (Race.Event ι RangeWrite)) :
    ∀ {s : Contest ι} {r : Race.State ι RangeWrite Content}, s.Follows dev c r →
      (∀ i w, Race.Event.read i w ∈ es → w.Fits dev) →
      (s.run dev es).Follows dev c (Race.run RangeWrite.effect r es) := by
  induction es with
  | nil => exact fun h _ => h
  | cons e es ih =>
    intro s r h hfits
    have hrest := fun i w hw => hfits i w (List.mem_cons_of_mem _ hw)
    cases e with
    | read i w => exact ih (h.read hdev i (hfits i w List.mem_cons_self)) hrest
    | write i => exact ih (h.write hdev i) hrest

end Contest

/-- Processes write ranges of misc in any order of their reads and writes, which do not overlap. On a block device misc then
shows all that was written. On MTD it shows some of the calls that wrote, one after the other, and all
of them just when none wrote between the read and the write of another one. -/
theorem misc_race {ι : Type} [DecidableEq ι] (dev : Device) (hdev : dev.FaultFree) (c : Content)
    (es : List (Race.Event ι RangeWrite)) (hfits : ∀ i w, Race.Event.read i w ∈ es → w.Fits dev) :
    let s := (Contest.start c).run dev es
    let r := Race.run RangeWrite.effect (Race.start c) es
    ∃ shown, dev.Same s.content (Race.serial RangeWrite.effect shown c) ∧ shown.Sublist r.written ∧
      match dev.store with
      | .block _ => shown = r.written
      | .mtd _ _ => shown = r.current.origin ∧
        (shown = r.written ↔ Race.Isolated RangeWrite.effect (Race.start c) es) := by
  intro s r
  have hcontent : dev.Same s.content (dev.store.shown c r) :=
    ((Contest.follows_start dev c).run hdev es hfits).content
  have hstart : Race.Consistent RangeWrite.effect c (Race.start c : Race.State ι RangeWrite Content) :=
    Race.consistent_start c
  obtain ⟨hvalue, hsublist⟩ := (hstart.run es).current
  obtain ⟨param, store⟩ := dev
  cases store with
  | block size => exact ⟨r.written, hcontent, List.Sublist.refl _, rfl⟩
  | mtd part left =>
    refine ⟨r.current.origin, ?_, hsublist, rfl, ?_⟩
    · rw [← hvalue]
      exact hcontent
    · rw [hstart.shows_run_iff es]
      exact and_iff_right rfl

/-- A process reads misc to set a message, and writes it after another one has written a record. -/
def lostRecord : List (Race.Event Bool RangeWrite) :=
  [.read false ⟨messageOfOnes.toBytes, bootloaderMessageOffset⟩, .read true ⟨List.replicate 32 1, metaDataOffset⟩,
    .write true, .write false]

theorem misc_race_lostRecord :
    recordAt ((Contest.start fun _ => 0).run nandMisc lostRecord).content = recordAt fun _ => 0 := by
  have hdev : nandMisc.FaultFree := by
    have hparam : isMtdDevice nandMisc.param = true := by decide
    exact ⟨hparam, show 18432 < 2 ^ 31 by decide, show 2048 ∣ 18432 by decide⟩
  have hmessage : ∀ msg : BootloaderMessage, RangeWrite.Fits ⟨msg.toBytes, bootloaderMessageOffset⟩ nandMisc := by
    intro msg
    have hlen := msg.toBytes_length
    show 16384 + msg.toBytes.length ≤ 18432
    omega
  have hfits : ∀ i w, Race.Event.read i w ∈ lostRecord → w.Fits nandMisc := by
    intro i w hw
    simp only [lostRecord, List.mem_cons, Race.Event.read.injEq, reduceCtorEq, List.not_mem_nil, or_false] at hw
    obtain ⟨-, rfl⟩ | ⟨-, rfl⟩ := hw
    · exact hmessage messageOfOnes
    · exact show 2048 + 32 ≤ 18432 by decide
  obtain ⟨shown, hsame, -, hshown, -⟩ := misc_race nandMisc hdev (fun _ => 0) lostRecord hfits
  have horigin : shown = [⟨messageOfOnes.toBytes, bootloaderMessageOffset⟩] := by
    rw [hshown, lostRecord]
    generalize messageOfOnes.toBytes = b
    rfl
  rw [horigin] at hsame
  have hsize : 17472 ≤ nandMisc.store.size := show 17472 ≤ 18432 by decide
  rw [recordAt_of_same hsize hsame, Race.serial_cons, Race.serial_nil, RangeWrite.effect, Option.getD_some]
  exact recordAt_overwrite_message _ _

end LinuxOta.Misc
