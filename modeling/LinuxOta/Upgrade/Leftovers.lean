-- SUMMARY: Sequences of packets: when a call flashes only images of its own packet, and none an earlier call left behind.
import LinuxOta.Base.Run
import LinuxOta.Upgrade.Packet

namespace LinuxOta.Upgrade

/-! # Sequences of packets

All calls share the temp directory. `tar` adds the images of a packet to what is there,
an image is removed when it was processed, and a failure keeps the rest from being
processed. -/

/-- One call of `rk_upgrade_packet`: the packet, the images in it, and what the calls
made answer. -/
structure PacketCall (ctrl : UpgradeCtrl) where
  packet : String
  content : Part → Option Bytes
  answers : PacketAnswers
  /-- `tar` creates the images of the packet and leaves the others. -/
  unpacks : ∀ files p, (answers.system (unpackCmd ctrl packet) files).2 (srcPath ctrl.tempDir p) =
    (content p <|> files (srcPath ctrl.tempDir p))

variable (g : FlashCtrl) (host : Endian) {ctrl : UpgradeCtrl}

/-- The machine after the call. -/
def PacketCall.after (c : PacketCall ctrl) (m : Machine) : Machine :=
  (Upgrade.packet g host ctrl c.answers (some c.packet) m).2

/-- Whatever the call writes to the partition of an image is a piece of the image of that
name in its packet. -/
def Uncontaminated (c : PacketCall ctrl) (m : Machine) : Prop :=
  ∀ part slot off data, m.Issued (c.after g host m) (.flashWrite (destPath part slot) off data) →
    ∃ img, c.content part = some img ∧ data <:+: img

/-- No image that is in the temp directory without being in the packet gets as far as a
write. -/
def LeftoversStopped (c : PacketCall ctrl) (m : Machine) : Prop :=
  ∀ slot part, c.answers.Starts ctrl m slot → 0 ≤ c.answers.status ctrl m c.packet →
    c.content part = none →
    Attempts g c.answers.image ctrl.tempDir (c.answers.unpacked ctrl m c.packet) partNames part →
    ¬ (c.answers.image part).Writes g (imageFile ctrl.tempDir m.files part)

variable {g host}

/-- What is in the temp directory under the name of an image after unpacking. -/
theorem PacketCall.unpacked_eq (c : PacketCall ctrl) (m : Machine) (p : Part) :
    imageFile ctrl.tempDir (c.answers.unpacked ctrl m c.packet) p =
      (c.content p <|> imageFile ctrl.tempDir m.files p) :=
  c.unpacks m.files p

/-- A single call writes only images of its packet exactly when it stops every leftover. -/
theorem uncontaminated_iff (c : PacketCall ctrl) (m : Machine) :
    Uncontaminated g host c m ↔ LeftoversStopped g c m := by
  obtain ⟨ret, acts, devs, hrun, -, hperf, -⟩ :=
    packet_run g host ctrl c.answers m (some c.packet)
  have hissued : ∀ path off data, m.Issued (c.after g host m) (.flashWrite path off data) ↔
      .flashWrite path off data ∈ acts := fun path off data => hperf.issued_iff rfl
  constructor
  · rintro hclean slot part hstarts hstatus hnone hattempts hwrites
    obtain ⟨images, ret', devs', hsub, himages⟩ := hrun.images_run hstarts hstatus
    obtain ⟨o, hacts, himage⟩ := himages.attempted hattempts
    rw [c.unpacked_eq, hnone] at himage
    obtain ⟨path, off, data, hmem⟩ := himage.writes_iff.mpr hwrites
    obtain rfl : path = destPath part slot.other := Option.some.inj (himage.target_of_mem hmem)
    obtain ⟨img, himg, -⟩ :=
      hclean part slot.other off data ((hissued _ _ _).mpr (hsub _ (hacts _ hmem)))
    simp [hnone] at himg
  · intro hstopped part slot off data hwrite
    rw [hissued] at hwrite
    rcases hrun.mem_acts_cases hwrite rfl with
      ⟨q, slot', images, ret', devs', hq, hstarts, hstatus, hmem, himages⟩ | ⟨q, slot', -, -, hmem⟩
    · obtain rfl := Option.some.inj hq
      obtain ⟨p, o, hattempts, hmem', himage⟩ := himages.mem_acts hmem
      obtain ⟨rfl, -⟩ := destPath_injective (Option.some.inj (himage.target_of_mem hmem'))
      obtain ⟨img, himg, hpiece⟩ := himage.data_of_mem hmem'
      cases hcontent : c.content part with
      | some img' =>
        rw [c.unpacked_eq, hcontent] at himg
        obtain rfl : img' = img := Option.some.inj himg
        exact ⟨img', rfl, hpiece⟩
      | none =>
        have hwrites := himage.writes_iff.mp ⟨_, _, _, hmem'⟩
        rw [c.unpacked_eq, hcontent] at hwrites
        exact absurd hwrites (hstopped slot' part hstarts hstatus hcontent hattempts)
    · cases hswitched : c.answers.activate.switched g m with
      | none => simp [hswitched, handedActs] at hmem
      | some d =>
        simp only [hswitched, handedActs, List.mem_singleton, Event.flashWrite.injEq] at hmem
        exact absurd hmem.1 (destPath_ne_miscPath part slot)

/-- In a sequence of calls every call flashes only images of its own packet, exactly when
every call stops the images that earlier ones left in the temp directory. -/
theorem packets_uncontaminated_iff (calls : List (PacketCall ctrl)) (m : Machine) :
    Run.Always (PacketCall.after g host) (Uncontaminated g host) calls m ↔
      Run.Always (PacketCall.after g host) (LeftoversStopped g) calls m :=
  Run.always_congr (fun c m => uncontaminated_iff c m) calls m

/-- A call without faults, but for the answers `b` to the calls made for the boot image. -/
def PacketCall.upToBoot (content : Part → Option Bytes) (b : ImageAnswers) :
    PacketCall userdataCtrl where
  packet := "/userdata/update.tar"
  content := content
  answers :=
    { PacketAnswers.faultless userdataCtrl.tempDir content with
      image := fun p => if p = .boot then b else .faultless }
  unpacks := by
    intro files p
    have hne : ∀ p q, p ≠ q → srcPath userdataCtrl.tempDir p ≠ srcPath userdataCtrl.tempDir q :=
      fun p q hpq h => hpq (srcPath_injective h)
    cases p with
    | uboot => simp [PacketAnswers.faultless]
    | boot => simp [PacketAnswers.faultless, hne .boot .uboot (by decide)]
    | system =>
      simp [PacketAnswers.faultless, hne .system .uboot (by decide), hne .system .boot (by decide)]

/-- The boot image of a first packet can not be written and its system image is left
behind. A second packet without a system image flashes it. -/
theorem packets_contaminated :
    ¬ ∀ (g : FlashCtrl) (host : Endian) (ctrl : UpgradeCtrl) (calls : List (PacketCall ctrl)) (m : Machine),
        (∀ p, m.files (srcPath ctrl.tempDir p) = none) →
        Run.Always (PacketCall.after g host) (Uncontaminated g host) calls m := by
  intro h
  let first := PacketCall.upToBoot (fun p => if p = .uboot then none else some [1])
    { ImageAnswers.faultless with block := fun _ => ⟨2 ^ 31, 0, .failed 0⟩ }
  let second := PacketCall.upToBoot (fun p => if p = .boot then some [2] else none) .faultless
  have hall := h smallFlash .little userdataCtrl [first, second] (deviceOn .a) (fun _ => rfl)
  let m := first.after smallFlash .little (deviceOn .a)
  have hissued : m.Issued (second.after smallFlash .little m) (.flashWrite (destPath .system .b) 0 [1]) :=
    ⟨(second.after smallFlash .little m).journal.drop m.journal.length, by decide +kernel, by decide +kernel⟩
  obtain ⟨img, himg, -⟩ := hall.2.1 .system .b 0 [1] hissued
  have hnone : second.content .system = none := rfl
  exact absurd (hnone.symm.trans himg) (by simp)

end LinuxOta.Upgrade
