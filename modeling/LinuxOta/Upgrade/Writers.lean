-- SUMMARY: On an eMMC partition without faults, the image writers of both modules leave the same content.
import LinuxOta.Flash.EmmcFlash
import LinuxOta.Upgrade.Partition
import LinuxOta.Ota.BlockWrite

namespace LinuxOta.Upgrade

/-! # Both image writers -/

/-- The image file and the calls of the eMMC driver, without faults. -/
structure ImageAnswers.FaultFree (a : ImageAnswers) (g : FlashCtrl) (partSize : Nat) (fd : Int)
    (img : Bytes) :
    Prop where
  fseekCopy : a.fseekCopy = true
  ftell : a.ftell = true
  calloc : a.calloc = true
  fread : ∀ offset, g.blockSize ≤ (a.block offset).fread
  erase : ∀ offset, (a.block offset).erase = rkBlockErase fd
  write : ∀ offset, (a.block offset).write =
    rkBlockWrite partSize fd offset (min g.blockSize (img.length - offset))

variable {g : FlashCtrl} {a : ImageAnswers} {partSize : Nat} {fd : Int} {img : Bytes}

namespace ImageAnswers.FaultFree

theorem srcSize (hfree : a.FaultFree g partSize fd img) (hlt : img.length < 2 ^ 31) :
    ftellSize a.ftell img.length = img.length := by
  rw [ftellSize, hfree.ftell, if_pos (by simpa using hlt)]

theorem ready (hfree : a.FaultFree g partSize fd img) (hsize : 0 < img.length)
    (hlt : img.length < 2 ^ 31) (hblock : 1 ≤ g.blockSize) : a.Ready g img where
  fseekCopy := hfree.fseekCopy
  srcSize := by
    rw [hfree.srcSize hlt]
    omega
  blockSize := by omega
  calloc := hfree.calloc

theorem whole (hfree : a.FaultFree g partSize fd img) (hopen : g.Opens fd)
    (hlt : img.length < 2 ^ 31)
    (hfits : img.length ≤ partSize) (hblock : 1 ≤ g.blockSize) : (a.copy g img).Whole := by
  intro k hk
  have hread := hfree.fread (k * g.blockSize)
  change k * g.blockSize < img.length at hk
  refine ⟨?_, ?_, ?_⟩
  · change k * g.blockSize < ftellSize a.ftell img.length
    rwa [hfree.srcSize hlt]
  · exact (Nat.min_le_left _ _).trans hread
  · change (a.block (k * g.blockSize)).write = .stored
    rw [hfree.write]
    exact rkBlockWrite_stored hopen.2 (by omega) (by omega) (by omega)

/-- No turn of the copy loop fails. -/
theorem goes (hfree : a.FaultFree g partSize fd img) (hopen : g.Opens fd)
    (hlt : img.length < 2 ^ 31)
    (hfits : img.length ≤ partSize) (hblock : 1 ≤ g.blockSize) {k : Nat} (hk : k * g.blockSize < img.length) :
    (a.copy g img).Goes k := by
  have hwhole := hfree.whole hopen hlt hfits hblock
  have hlen : (a.copy g img).readLen k = min g.blockSize (img.length - k * g.blockSize) :=
    hwhole.readLen k hk
  obtain ⟨hsrc, -, hstored⟩ := hwhole k hk
  have herase : ((a.copy g img).answer k).erase = rkBlockErase fd := hfree.erase _
  refine ⟨hsrc, by omega, ?_, ?_⟩
  · rw [herase, rkBlockErase_nonneg hopen.2]
  · rw [hstored]
    exact Int.le_refl 0

end ImageAnswers.FaultFree

/-- A copy of whole blocks leaves the image, followed by what was there before. -/
theorem Copy.Whole.afterTurns_eq {c : Copy} {t : Nat} (hwhole : c.Whole) (hc : c.Completes t)
    (hsize : 0 < c.blockSize) (hsrc : c.srcSize = c.img.length) (d : Content) :
    c.afterTurns d t = d.overwrite 0 c.img := by
  funext j
  rcases Nat.lt_or_ge j c.img.length with hlt | hge
  · rw [hwhole.inPlace hc hsize d j hlt]
    have hin : d.overwrite 0 c.img (0 + j) = c.img[j] := Content.overwrite_inside hlt
    rw [Nat.zero_add] at hin
    exact hin.symm
  rw [Copy.afterTurns_apply hsize, Content.overwrite_after (by omega)]
  by_cases hturn : j / c.blockSize < t
  swap
  · rw [if_neg hturn]
  -- the turn at `j` read up to the end of the image
  have hdiv : c.blockSize * (j / c.blockSize) + j % c.blockSize = j := Nat.div_add_mod j c.blockSize
  rw [Nat.mul_comm] at hdiv
  have hin : j / c.blockSize * c.blockSize < c.img.length := hsrc ▸ (hc.1 _ hturn).1
  have hread := hwhole.readLen _ hin
  have hstored := c.stored_length_le (j / c.blockSize)
  rw [if_pos hturn, List.getD_eq_default _ _ (by omega)]

/-- Without faults `upgrade_do_write` copies the image to the start of the partition. -/
theorem doWrite_faultFree (hopen : g.Opens fd) (hfree : a.FaultFree g partSize fd img)
    (hsize : 0 < img.length) (hlt : img.length < 2 ^ 31) (hfits : img.length ≤ partSize)
    (hblock : 1 ≤ g.blockSize) (url path : String) (m : Machine) :
    (doWrite g a img fd url path m).1 = 0 ∧
      (doWrite g a img fd url path m).2.devs path = (m.devs path).overwrite 0 img := by
  obtain ⟨t, h, pre, post, hruns, -, hloop⟩ :=
    doWrite_ready url path hopen (hfree.ready hsize hlt hblock) (m := m)
  have hwhole := hfree.whole hopen hlt hfits hblock
  have hsrc : (a.copy g img).srcSize = (a.copy g img).img.length := hfree.srcSize hlt
  have hgoes : t * g.blockSize < img.length → (a.copy g img).Goes t :=
    hfree.goes hopen hlt hfits hblock
  have hends : h = .finished := by
    have hstops := Copy.not_goes_of_ends hruns.2
    have hdone : img.length ≤ t * g.blockSize := Nat.not_lt.mp fun hlt => hstops (hgoes hlt)
    have hfinished : (a.copy g img).Ends t .finished := by
      rw [Copy.Ends, hsrc]
      exact hdone
    exact (Copy.Ends.unique hruns.2 hfinished).symm
  subst hends
  have hc : (a.copy g img).Completes t := ⟨hruns.1, .inl hruns.2⟩
  rw [hloop]
  refine ⟨rfl, ?_⟩
  simp only [Function.update_self, Copy.afterHalt]
  exact hwhole.afterTurns_eq hc hblock hsrc _

/-- Both image writers report success and leave the image, followed by the bytes that were
there before. -/
theorem image_writers_agree {b : Bootloader.BlockWriteAnswers} (hopen : g.Opens fd)
    (hfree : a.FaultFree g partSize fd img) (hfree' : b.FaultFree) (hsize : 0 < img.length)
    (hlt : img.length < 2 ^ 31) (hfits : img.length ≤ partSize) (hblock : 1 ≤ g.blockSize)
    (url path : String) (m : Machine) :
    (doWrite g a img fd url path m).1 = 0 ∧
    (Bootloader.blockWrite b img partSize img.length (m.devs path)).1 = 0 ∧
    (doWrite g a img fd url path m).2.devs path = (m.devs path).overwrite 0 img ∧
    (Bootloader.blockWrite b img partSize img.length (m.devs path)).2 = (m.devs path).overwrite 0 img := by
  obtain ⟨hret, hdevs⟩ := doWrite_faultFree hopen hfree hsize hlt hfits hblock url path m
  rw [Bootloader.blockWrite_faultFree hfree' hfits]
  exact ⟨hret, rfl, hdevs, rfl⟩

/-- The answers for an image on a partition without faults. -/
def ImageAnswers.onEmmc (g : FlashCtrl) (partSize : Nat) (fd : Int) (img : Bytes) :
    ImageAnswers where
  access := true
  fopen := true
  fseek := true
  flashOpen := fd
  fseekCopy := true
  ftell := true
  calloc := true
  block := fun offset =>
    ⟨g.blockSize, rkBlockErase fd, rkBlockWrite partSize fd offset (min g.blockSize (img.length - offset))⟩
  remove := true

theorem ImageAnswers.onEmmc_faultFree (g : FlashCtrl) (partSize : Nat) (fd : Int) (img : Bytes) :
    (onEmmc g partSize fd img).FaultFree g partSize fd img :=
  ⟨rfl, rfl, rfl, fun _ => Nat.le_refl _, fun _ => rfl, fun _ => rfl⟩

theorem image_writers_agree_five_bytes :
    let a := ImageAnswers.onEmmc ⟨true, 4⟩ 8 3 [1, 2, 3, 4, 5]
    let b : Bootloader.BlockWriteAnswers :=
      ⟨true, true, true, true, fun _ => Bootloader.blockWriteLen, fun _ => Bootloader.blockWriteLen⟩
    let m := (deviceOn .a).withDev "/dev/boot_b" fun _ => 0xFF
    (doWrite ⟨true, 4⟩ a [1, 2, 3, 4, 5] 3 "boot.img" "/dev/boot_b" m).1 = 0 ∧
    (Bootloader.blockWrite b [1, 2, 3, 4, 5] 8 5 (m.devs "/dev/boot_b")).1 = 0 ∧
    (doWrite ⟨true, 4⟩ a [1, 2, 3, 4, 5] 3 "boot.img" "/dev/boot_b" m).2.devs "/dev/boot_b" =
      (m.devs "/dev/boot_b").overwrite 0 [1, 2, 3, 4, 5] ∧
    (Bootloader.blockWrite b [1, 2, 3, 4, 5] 8 5 (m.devs "/dev/boot_b")).2 =
      (m.devs "/dev/boot_b").overwrite 0 [1, 2, 3, 4, 5] :=
  image_writers_agree ⟨rfl, by decide⟩ (ImageAnswers.onEmmc_faultFree _ _ _ _)
    ⟨rfl, rfl, rfl, rfl, fun _ => Nat.le_refl _, fun _ => Nat.le_refl _⟩ (by decide) (by decide) (by decide)
    (by decide) _ _ _

end LinuxOta.Upgrade
