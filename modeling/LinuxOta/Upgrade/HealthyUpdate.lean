-- SUMMARY: An update of an eMMC on which no call fails: which images are accepted, and what is left on the device.
import LinuxOta.Flash.FlashType
import LinuxOta.Upgrade.ActivationSafety
import LinuxOta.Upgrade.BootDecision
import LinuxOta.Upgrade.Writers

namespace LinuxOta.Upgrade

/-! # Updates without faults -/

/-- An image that can be copied to a partition of `partSize` bytes: sizes and offsets go through
types of 32 bits with a sign. -/
def Copyable (partSize : Nat) (img : Bytes) : Prop :=
  0 < img.length ∧ img.length < 2 ^ 31 ∧ img.length ≤ partSize

variable {g : FlashCtrl} {a : ImageAnswers} {partSize : Nat} {fd : Int} {img : Bytes}

/-- A write fails past the end of the partition, and where bit 31 of the offset is set. -/
theorem rkBlockWrite_fails {offset n : Nat} (hn : n < 2 ^ 31)
    (h : 2 ^ 31 ≤ offset % 2 ^ 32 ∨ partSize < offset + n) (hpos : 0 < n) :
    (rkBlockWrite partSize fd offset n).ret < 0 := by
  rw [rkBlockWrite]
  split
  · decide
  split
  · decide
  next hsign =>
  rw [asInt32_neg_iff] at hsign
  have hshort : min n (partSize - offset) < n := by omega
  have hne : asInt32 (min n (partSize - offset)) ≠ n := by
    rw [asInt32_of_lt (by omega)]
    omega
  rw [if_pos hne]
  exact Int.negSucc_lt_zero 0

namespace ImageAnswers.FaultFree

/-- No read is short. -/
theorem filePos_eq (hfree : a.FaultFree g partSize fd img) (k : Nat) :
    (a.copy g img).filePos k = min (k * g.blockSize) img.length := by
  induction k with
  | zero => simp [Copy.filePos]
  | succ k ih =>
    have hread := hfree.fread (k * g.blockSize)
    have hanswer : ((a.copy g img).answer k).fread = (a.block (k * g.blockSize)).fread := rfl
    rw [Copy.filePos, ih, hanswer, Nat.succ_mul]
    show min (k * g.blockSize) img.length +
      min (a.block (k * g.blockSize)).fread (min g.blockSize (img.length - min (k * g.blockSize) img.length)) = _
    omega

theorem readLen_eq (hfree : a.FaultFree g partSize fd img) (k : Nat) :
    (a.copy g img).readLen k = min g.blockSize (img.length - k * g.blockSize) := by
  have hread := hfree.fread (k * g.blockSize)
  rw [Copy.readLen, hfree.filePos_eq]
  show min (a.block (k * g.blockSize)).fread (min g.blockSize (img.length - min (k * g.blockSize) img.length)) = _
  omega

/-- A turn does not go through behind the image, past the end of the partition, or where bit 31 of
the offset is set. -/
theorem not_goes (hfree : a.FaultFree g partSize fd img) (hblock : g.blockSize < 2 ^ 31) {k : Nat}
    (h : img.length ≤ k * g.blockSize ∨ 2 ^ 31 ≤ k * g.blockSize % 2 ^ 32 ∨
      partSize < k * g.blockSize + min g.blockSize (img.length - k * g.blockSize)) :
    ¬ (a.copy g img).Goes k := by
  rintro ⟨-, hread, -, hwrite⟩
  rw [hfree.readLen_eq] at hread
  have hanswer : ((a.copy g img).answer k).write =
      rkBlockWrite partSize fd (k * g.blockSize) (min g.blockSize (img.length - k * g.blockSize)) := hfree.write _
  rw [hanswer] at hwrite
  have hfails : (rkBlockWrite partSize fd (k * g.blockSize)
      (min g.blockSize (img.length - k * g.blockSize))).ret < 0 :=
    rkBlockWrite_fails (by omega) (h.resolve_left (by omega)) (Nat.pos_of_ne_zero hread)
  omega

/-- A loop that has to go through such a turn does not complete. -/
theorem not_completes (hfree : a.FaultFree g partSize fd img) {k t : Nat} (hgoes : ¬ (a.copy g img).Goes k)
    (hsize : k * g.blockSize < ftellSize a.ftell img.length) (hmore : 0 < k → g.blockSize < img.length)
    (hblock : 0 < g.blockSize) : ¬ (a.copy g img).Completes t := by
  rintro ⟨hall, hends⟩
  have hle : t ≤ k := Nat.not_lt.mp fun hlt => hgoes (hall k hlt)
  have hmul := Nat.mul_le_mul_right g.blockSize hle
  rcases hends with hdone | ⟨hone, hread⟩
  · change ftellSize a.ftell img.length ≤ t * g.blockSize at hdone
    omega
  · -- the file is at its end in turn 1 only when it has no more than one block
    change t * g.blockSize = g.blockSize at hone
    rw [hfree.readLen_eq, hone] at hread
    have ht : 0 < t := by
      refine Nat.pos_of_ne_zero fun hzero => ?_
      rw [hzero, Nat.zero_mul] at hone
      omega
    have := hmore (by omega)
    omega

/-- The loop completes for the images that can be copied. -/
theorem completes_iff (hfree : a.FaultFree g partSize fd img) (hopen : g.Opens fd)
    (hblock : g.blockSize = FlashOps.blockWriteLen) (hne : 0 < img.length) :
    (∃ t, (a.copy g img).Completes t) ↔ img.length < 2 ^ 31 ∧ img.length ≤ partSize := by
  have hbs : g.blockSize = 16384 := hblock
  constructor
  · rintro ⟨t, hc⟩
    by_contra hnot
    by_cases hlt : img.length < 2 ^ 31
    · -- the turn at the end of the partition
      have hfits : partSize < img.length := by omega
      have hdiv := Nat.div_add_mod partSize g.blockSize
      have hmod := Nat.mod_lt partSize (show 0 < g.blockSize by omega)
      rw [Nat.mul_comm] at hdiv
      have hgoes := hfree.not_goes (k := partSize / g.blockSize) (by omega) (.inr (.inr (by omega)))
      refine hfree.not_completes hgoes ?_ (fun hk => ?_) (by omega) hc
      · rw [hfree.srcSize hlt]
        omega
      · have hmul := Nat.mul_le_mul_right g.blockSize hk
        omega
    · -- the turn at 2 GiB
      have hat : 2 ^ 17 * g.blockSize = 2 ^ 31 := by rw [hbs]; decide
      have hgoes : ¬ (a.copy g img).Goes (2 ^ 17) := hfree.not_goes (by omega) (.inr (.inl (by omega)))
      refine hfree.not_completes hgoes ?_ (fun _ => by omega) (by omega) hc
      rw [ftellSize, hat, if_neg (by simp only [Bool.and_eq_true, decide_eq_true_eq, hlt, and_false, not_false_eq_true])]
      decide
  · rintro ⟨hlt, hfits⟩
    have hone : 1 ≤ g.blockSize := by omega
    refine ⟨(img.length + g.blockSize - 1) / g.blockSize, fun k hk => ?_, .inl ?_⟩
    · refine hfree.goes hopen hlt hfits hone ?_
      have hle := (Nat.le_div_iff_mul_le hone).mp (show k + 1 ≤ _ from hk)
      rw [Nat.succ_mul] at hle
      omega
    · change ftellSize a.ftell img.length ≤ _
      rw [hfree.srcSize hlt]
      have hlt' := Nat.lt_mul_div_succ (img.length + g.blockSize - 1) hone
      change img.length ≤ (img.length + g.blockSize - 1) / g.blockSize * g.blockSize
      rw [Nat.mul_succ, Nat.mul_comm] at hlt'
      omega

end ImageAnswers.FaultFree

/-- An image passes exactly when it can be copied. -/
theorem ImageAnswers.passes_iff {file : Option Bytes} (haccess : a.access = true) (hfopen : a.fopen = true)
    (hopens : a.Opens g) (hblock : g.blockSize = FlashOps.blockWriteLen)
    (hfree : ∀ img, file = some img → a.FaultFree g partSize a.flashOpen img) :
    a.Passes g file ↔ ∀ img, file = some img → Copyable partSize img := by
  cases file with
  | none => exact iff_of_true (.inl (by simp [found])) (by simp)
  | some img =>
    have hfree := hfree img rfl
    have hfound : a.found (some img) = some img := by simp [found, haccess, hfopen]
    constructor
    · rintro (hnone | ⟨img', hcopies, hc⟩) img'' himg
      · exact absurd (hnone.symm.trans hfound) (by simp)
      obtain rfl := Option.some.inj himg
      obtain rfl := Option.some.inj (hfound.symm.trans hcopies.found)
      have hne : 0 < img.length := by
        refine Nat.pos_of_ne_zero fun hzero => hcopies.ready.srcSize ?_
        rw [hfree.srcSize (by omega), hzero]
      exact ⟨hne, (hfree.completes_iff hopens.flashOpen hblock hne).mp hc⟩
    · intro hall
      obtain ⟨hne, hlt, hfits⟩ := hall img rfl
      have hpos : 1 ≤ g.blockSize := by rw [hblock]; decide
      exact .inr ⟨img, ⟨hfound, hopens, hfree.ready hne hlt hpos⟩,
        (hfree.completes_iff hopens.flashOpen hblock hne).mpr ⟨hlt, hfits⟩⟩

/-! ## The packet -/

/-- No call made for the packet fails; `size` has the sizes of the partitions. -/
structure PacketAnswers.Healthy (a : PacketAnswers) (g : FlashCtrl) (ctrl : UpgradeCtrl) (m : Machine)
    (packet : String) (slot : Slot) (size : Part → Nat) : Prop where
  blockSize : g.blockSize = FlashOps.blockWriteLen
  starts : a.Starts ctrl m slot
  status : 0 ≤ a.status ctrl m packet
  access : ∀ p, (a.image p).access = true
  fopen : ∀ p, (a.image p).fopen = true
  opens : ∀ p, (a.image p).Opens g
  faultFree : ∀ p img, imageFile ctrl.tempDir (a.unpacked ctrl m packet) p = some img →
    (a.image p).FaultFree g (size p) (a.image p).flashOpen img
  switches : a.Switches g m slot

section
variable {host : Endian} {ctrl : UpgradeCtrl} {a : PacketAnswers} {m : Machine} {q : String} {slot : Slot}
  {size : Part → Nat}

/-- Every image of the packet can be copied to its partition. -/
def AllCopyable (ctrl : UpgradeCtrl) (size : Part → Nat) (files : String → Option Bytes) : Prop :=
  ∀ p img, imageFile ctrl.tempDir files p = some img → Copyable (size p) img

theorem PacketAnswers.Healthy.reports_iff (h : a.Healthy g ctrl m q slot size) :
    a.Reports g ctrl m q slot ↔ AllCopyable ctrl size (a.unpacked ctrl m q) := by
  have hpasses : ∀ p, Passes g a.image ctrl.tempDir (a.unpacked ctrl m q) p ↔
      ∀ img, imageFile ctrl.tempDir (a.unpacked ctrl m q) p = some img → Copyable (size p) img :=
    fun p => ImageAnswers.passes_iff (h.access p) (h.fopen p) (h.opens p) h.blockSize (h.faultFree p)
  constructor
  · intro hreports p
    exact (hpasses p).mp (hreports.images p)
  · intro hall
    exact ⟨h.starts, h.status, fun p => (hpasses p).mpr (hall p)⟩

/-- What an image that passes leaves. -/
theorem ImageRun.store_faultFree {a : ImageAnswers} {url dest : String} {o : ImageOutcome}
    (hrun : ImageRun g a url dest (some img) o) (hret : 0 ≤ o.ret) (haccess : a.access = true)
    (hfopen : a.fopen = true) (hfree : a.FaultFree g partSize a.flashOpen img)
    (hcopyable : Copyable partSize img) (d : Content) : o.store d = d.overwrite 0 img := by
  obtain ⟨-, hlt, hfits⟩ := hcopyable
  rcases hrun.copies_or_not with ⟨-, -, -, hfound⟩ | ⟨img', t, halt, hcopies, hruns, hhalt, -, hstore⟩
  · have hnone := hfound.mp hret
    simp [ImageAnswers.found, haccess, hfopen] at hnone
  obtain rfl := Option.some.inj (ImageAnswers.found_eq_some hcopies.found).2.2
  rw [hhalt] at hret
  obtain ⟨t', hc⟩ := hruns.ret_nonneg_iff.mp hret
  obtain rfl := hruns.turn_eq_of_completes hc
  have hpos := Nat.pos_of_ne_zero hcopies.ready.blockSize
  have hwhole := hfree.whole hcopies.opens.flashOpen hlt hfits hpos
  rw [hstore, Copy.afterHalt_of_nonneg hret]
  exact hwhole.afterTurns_eq hc hpos (hfree.srcSize hlt) d

/-- On an eMMC on which no call fails, a packet is accepted exactly when each of its images can be
copied to its partition, which takes a size that a `long` of 32 bits holds. Then the other slot has
the images, each followed by what was there before, and is the one selected; otherwise the record is
the one from before. -/
theorem healthy_packet (h : a.Healthy g ctrl m q slot size) :
    (0 ≤ (packet g host ctrl a (some q) m).1 ↔ AllCopyable ctrl size (a.unpacked ctrl m q)) ∧
    (0 ≤ (packet g host ctrl a (some q) m).1 →
      (∀ p, (packet g host ctrl a (some q) m).2.devs (destPath p slot.other) =
        match imageFile ctrl.tempDir (a.unpacked ctrl m q) p with
        | some img => (m.devs (destPath p slot.other)).overwrite 0 img
        | none => m.devs (destPath p slot.other)) ∧
      (packet g host ctrl a (some q) m).2.record.Selects slot.other) ∧
    ((packet g host ctrl a (some q) m).1 < 0 →
      (packet g host ctrl a (some q) m).2.devs miscPath = m.devs miscPath) ∧
    ∀ p, (packet g host ctrl a (some q) m).2.devs (destPath p slot) = m.devs (destPath p slot) := by
  have hreports : 0 ≤ (packet g host ctrl a (some q) m).1 → a.Reports g ctrl m q slot := by
    intro hret
    obtain ⟨q', slot', hq, hreports⟩ := packet_reports_of_success (.inl hret)
    obtain rfl := Option.some.inj hq
    obtain rfl := h.starts.slot_eq hreports.starts
    exact hreports
  refine ⟨⟨fun hret => h.reports_iff.mp (hreports hret), fun hall => ?_⟩, fun hret => ⟨fun p => ?_, ?_⟩,
    (packet_keeps_boot_decision g host ctrl a m (some q)).1, fun p => ?_⟩
  · exact (packet_reports host (h.reports_iff.mpr hall)).1
  · obtain ⟨o, hnonneg, hrun, hstore⟩ := packet_partition host (hreports hret) p
    rw [hstore]
    cases himg : imageFile ctrl.tempDir (a.unpacked ctrl m q) p with
    | none =>
      rw [himg] at hrun
      rw [hrun.store_of_none]
      rfl
    | some img =>
      rw [himg] at hrun
      exact hrun.store_faultFree hnonneg (h.access p) (h.fopen p) (h.faultFree p img himg)
        (h.reports_iff.mp (hreports hret) p img himg) _
  · rw [(packet_reports host (hreports hret)).2]
    exact selects_of_switches h.switches
  · obtain ⟨ret, acts, devs, hrun, -, -, hdevs⟩ := packet_run g host ctrl a m (some q)
    rw [hdevs]
    refine hrun.devs_of_ne (destPath_ne_miscPath p slot) fun slot' part hstarts heq => ?_
    obtain rfl := h.starts.slot_eq hstarts
    exact Slot.other_ne slot' (destPath_injective heq).2.symm

end

/-- The flash layer on an eMMC. -/
def emmcFlash : FlashCtrl := ⟨true, FlashOps.blockWriteLen⟩

/-- A packet with a boot image of five bytes, for partitions of eight. -/
def PacketAnswers.fiveBytes : PacketAnswers :=
  { PacketAnswers.faultless userdataCtrl.tempDir
      (fun p => if p = .boot then some [1, 2, 3, 4, 5] else none) with
    image := fun _ => .onEmmc emmcFlash 8 3 [1, 2, 3, 4, 5] }

theorem PacketAnswers.imageFile_fiveBytes (p : Part) :
    imageFile userdataCtrl.tempDir (fiveBytes.unpacked userdataCtrl (deviceOn .a) "/userdata/update.tar") p =
      if p = .boot then some [1, 2, 3, 4, 5] else none := by
  cases p <;> decide

theorem PacketAnswers.fiveBytes_healthy :
    fiveBytes.Healthy emmcFlash userdataCtrl (deviceOn .a) "/userdata/update.tar" .a fun _ => 8 where
  blockSize := rfl
  starts := ⟨rfl, rfl, by decide, rfl⟩
  status := by decide
  access := fun _ => rfl
  fopen := fun _ => rfl
  opens := fun _ => ⟨rfl, rfl, Int.natCast_nonneg 3⟩
  faultFree := by
    intro p img himg
    rw [imageFile_fiveBytes] at himg
    split at himg
    · obtain rfl := Option.some.inj himg
      exact ImageAnswers.onEmmc_faultFree _ _ _ _
    · exact absurd himg (by simp)
  switches := ⟨⟨rfl, by decide⟩, by decide, by decide, ⟨rfl, by decide⟩, by decide⟩

theorem healthy_packet_five_bytes :
    let r := packet emmcFlash .little userdataCtrl .fiveBytes (some "/userdata/update.tar") (deviceOn .a)
    0 ≤ r.1 ∧ (∀ p, r.2.devs (destPath p .b) =
      match imageFile userdataCtrl.tempDir
        (PacketAnswers.fiveBytes.unpacked userdataCtrl (deviceOn .a) "/userdata/update.tar") p with
      | some img => ((deviceOn .a).devs (destPath p .b)).overwrite 0 img
      | none => (deviceOn .a).devs (destPath p .b)) ∧ r.2.record.Selects .b := by
  obtain ⟨hret, hsuccess, -, -⟩ := @healthy_packet _ .little _ _ _ _ _ _ PacketAnswers.fiveBytes_healthy
  have hall : AllCopyable userdataCtrl (fun _ => 8)
      (PacketAnswers.fiveBytes.unpacked userdataCtrl (deviceOn .a) "/userdata/update.tar") := by
    intro p img himg
    rw [PacketAnswers.imageFile_fiveBytes] at himg
    split at himg
    · obtain rfl := Option.some.inj himg
      show Copyable 8 [1, 2, 3, 4, 5]
      exact ⟨by decide, by decide, by decide⟩
    · exact absurd himg (by simp)
  exact ⟨hret.mpr hall, hsuccess (hret.mpr hall)⟩

end LinuxOta.Upgrade
