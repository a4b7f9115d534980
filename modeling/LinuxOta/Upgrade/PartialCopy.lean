-- SUMMARY: When a success of `upgrade_do_write` means that the whole image is on the partition.
import LinuxOta.Upgrade.Partition

namespace LinuxOta.Upgrade

/-! # Partial copies -/

/-- A success of `upgrade_do_write` means that the partition starts with the image,
whatever was on it before. -/
def CopiesOrFails (g : FlashCtrl) (a : ImageAnswers) (img : Bytes) (fd : Int) (url path : String)
    (m : Machine) : Prop :=
  ∀ d : Content, 0 ≤ (doWrite g a img fd url path (m.withDev path d)).1 →
    ((doWrite g a img fd url path (m.withDev path d)).2.devs path).read 0 img.length = img

variable {g : FlashCtrl} {a : ImageAnswers} {img : Bytes} {fd : Int} {url path : String} {m : Machine}

theorem doWrite_of_not_opens (hopen : ¬ g.Opens fd) : (doWrite g a img fd url path m).1 = -1 := by
  have hinfo : ∀ m : Machine, (dlFlashGetInfo g fd path m).1 = none := by
    intro m
    by_cases hinit : g.isInit = true
    · have hfd : fd < 0 := Int.not_le.mp fun h => hopen ⟨hinit, h⟩
      simp [dlFlashGetInfo, hinit, hfd]
    · simp [dlFlashGetInfo, hinit]
  rw [doWrite]
  split
  · rfl
  · dsimp only
    split
    · rfl
    · split
      · rfl
      · rename_i heq
        have hnone := hinfo ((m.log (.streamUse url)).log (.streamUse url))
        rw [heq] at hnone
        cases hnone

variable (url path m) in
/-- A copy loop that is reached reports success exactly when the copy completes. -/
theorem doWrite_ready_content (hopen : g.Opens fd) (hready : a.Ready g img) :
    (0 ≤ (doWrite g a img fd url path m).1 ↔ ∃ t, (a.copy g img).Completes t) ∧
    ∀ t, (a.copy g img).Completes t →
      (doWrite g a img fd url path m).2.devs path = (a.copy g img).afterTurns (m.devs path) t := by
  obtain ⟨t, h, pre, post, hruns, -, hloop⟩ := doWrite_ready url path hopen hready (m := m)
  rw [hloop]
  refine ⟨hruns.ret_nonneg_iff, fun t' hc => ?_⟩
  obtain rfl := hruns.turn_eq_of_completes hc
  have hret := hruns.ret_nonneg_iff.mpr ⟨t', hc⟩
  simp only [Function.update_self, Copy.afterHalt_of_nonneg hret]

/-- The call never reports a partial copy as a success, exactly when a copy that completes
has read and stored each block of the image whole. -/
theorem doWrite_copies_or_fails_iff (g : FlashCtrl) (a : ImageAnswers) (img : Bytes) (fd : Int)
    (url path : String) (m : Machine) :
    CopiesOrFails g a img fd url path m ↔
      (g.Opens fd → a.Ready g img → ∀ t, (a.copy g img).Completes t → (a.copy g img).Whole) := by
  have hfails : ¬ (0 : Int) ≤ -1 := by decide
  constructor
  · intro hcopies hopen hready t hc
    refine (hc.inPlace_iff (Nat.pos_of_ne_zero hready.blockSize)).mp fun d j hj => ?_
    obtain ⟨hret, hdevs⟩ := doWrite_ready_content url path (m.withDev path d) hopen hready
    have hread := hcopies d (hret.mpr ⟨t, hc⟩)
    rw [hdevs t hc, Machine.withDev_devs_self] at hread
    exact Content.read_zero_eq_iff.mp hread j hj
  · intro hwhole d hret
    by_cases hopen : g.Opens fd
    swap
    · rw [doWrite_of_not_opens hopen] at hret
      exact absurd hret hfails
    by_cases hready : a.Ready g img
    swap
    · obtain ⟨evs, -, hloop⟩ := doWrite_unready url path hopen hready (m := m.withDev path d)
      rw [hloop] at hret
      exact absurd hret hfails
    obtain ⟨hiff, hdevs⟩ := doWrite_ready_content url path (m.withDev path d) hopen hready
    obtain ⟨t, hc⟩ := hiff.mp hret
    rw [hdevs t hc, Content.read_zero_eq_iff]
    exact (hwhole hopen hready t hc).inPlace hc (Nat.pos_of_ne_zero hready.blockSize) _

/-- The calls for an image whose only `fread` returns one byte. -/
def shortRead : ImageAnswers where
  access := true
  fopen := true
  fseek := true
  flashOpen := 3
  fseekCopy := true
  ftell := true
  calloc := true
  block := fun _ => ⟨1, 0, .stored⟩
  remove := true

/-- Of a two-byte image one byte is read and written, and the call returns 0. -/
theorem doWrite_partial_success :
    (doWrite ⟨true, 4⟩ shortRead [1, 2] 3 "boot.img" "/dev/boot_b"
      ((deviceOn .a).withDev "/dev/boot_b" fun _ => 0)).1 = 0 ∧
    ((doWrite ⟨true, 4⟩ shortRead [1, 2] 3 "boot.img" "/dev/boot_b"
      ((deviceOn .a).withDev "/dev/boot_b" fun _ => 0)).2.devs "/dev/boot_b").read 0 2 = [1, 0] ∧
    ¬ ∀ (g : FlashCtrl) (a : ImageAnswers) (img : Bytes) (fd : Int) (url path : String) (m : Machine),
      0 < img.length → ftellSize a.ftell img.length = img.length → 1 ≤ g.blockSize →
      CopiesOrFails g a img fd url path m := by
  have hret : (doWrite ⟨true, 4⟩ shortRead [1, 2] 3 "boot.img" "/dev/boot_b"
      ((deviceOn .a).withDev "/dev/boot_b" fun _ => 0)).1 = 0 := by decide +kernel
  have hread : ((doWrite ⟨true, 4⟩ shortRead [1, 2] 3 "boot.img" "/dev/boot_b"
      ((deviceOn .a).withDev "/dev/boot_b" fun _ => 0)).2.devs "/dev/boot_b").read 0 2 = [1, 0] := by
    decide +kernel
  refine ⟨hret, hread, fun hall => ?_⟩
  have himg := hall ⟨true, 4⟩ shortRead [1, 2] 3 "boot.img" "/dev/boot_b" (deviceOn .a) (by decide)
    (by decide) (by decide) (fun _ => 0) (by rw [hret])
  exact absurd (hread.symm.trans himg) (by decide)

end LinuxOta.Upgrade
