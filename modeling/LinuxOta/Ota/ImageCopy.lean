-- SUMMARY: The update of a block device by ota: the copy loop turn by turn, and that an image is removed only after a complete copy.
import LinuxOta.Base.Loop
import LinuxOta.Ota.BlockWrite
import LinuxOta.Ota.CompareFile

namespace LinuxOta.Bootloader

/-! # Copies of images -/

variable {a : BlockWriteAnswers} {img : Bytes} {partSize : Nat} {s s' : CopyState}

/-- What a turn does that the loop goes on after. -/
theorem blockWriteTurn_next (h : blockWriteTurn a img partSize s = .inl s') :
    ∃ n k, n = min blockWriteLen s.srcRemain ∧ k = min blockWriteLen s.destRemain ∧
      0 < s.srcRemain ∧ 0 < s.destRemain ∧ s.srcPos + n ≤ img.length ∧ s.destPos + k ≤ partSize ∧
      s' = ⟨s.turn + 1, s.srcPos + n, s.destPos + k, s.srcRemain - n, s.destRemain - k,
        s.dest.overwrite s.destPos
          (((img.drop s.srcPos).take n ++ List.replicate (blockWriteLen - n) 0).take k)⟩ := by
  unfold blockWriteTurn at h
  have hread : (if s.srcRemain > blockWriteLen then blockWriteLen else s.srcRemain) =
      min blockWriteLen s.srcRemain := by
    split <;> omega
  have hwrite : (if s.destRemain > blockWriteLen then blockWriteLen else s.destRemain) =
      min blockWriteLen s.destRemain := by
    split <;> omega
  have hlen : 0 < blockWriteLen := by decide
  split at h
  · next hremain =>
    simp only [hread, hwrite] at h
    split at h
    · exact absurd h (by simp)
    · next hgot =>
      rw [ne_eq, not_not] at hgot
      split at h
      · exact absurd h (by simp)
      · next hput =>
        rw [ne_eq, not_not] at hput
        rw [hgot, hput] at h
        exact ⟨_, _, rfl, rfl, hremain.1, hremain.2, by omega, by omega, (Sum.inl.inj h).symm⟩
  · exact absurd h (by simp)

/-- The loop stops after a failure, or when nothing is left on one side. -/
theorem blockWriteTurn_stop {r : Int × Content} (h : blockWriteTurn a img partSize s = .inr r) :
    r.1 = -1 ∨ r.1 = 0 ∧ r.2 = s.dest ∧ ¬ (0 < s.srcRemain ∧ 0 < s.destRemain) := by
  unfold blockWriteTurn at h
  split at h
  · dsimp only at h
    generalize (if s.srcRemain > blockWriteLen then blockWriteLen else s.srcRemain) = readCount at h
    generalize (if s.destRemain > blockWriteLen then blockWriteLen else s.destRemain) = writeCount at h
    split at h
    · exact .inl (congrArg Prod.fst (Sum.inr.inj h)).symm
    · split at h
      · exact .inl (congrArg Prod.fst (Sum.inr.inj h)).symm
      · exact absurd h (by simp)
  · next hremain =>
    obtain rfl := Sum.inr.inj h
    exact .inr ⟨rfl, rfl, hremain⟩

/-- The loop ends, with the result of `blockWriteLoop`. -/
theorem blockWriteLoop_ends {fuel : Nat} (hfuel : s.srcRemain ≤ fuel) :
    Loop.Ends (blockWriteTurn a img partSize) s
      (blockWriteLoop a img partSize fuel s) := by
  induction fuel generalizing s with
  | zero =>
    apply Loop.Ends.stop
    have hzero : ¬ (s.srcRemain > 0 ∧ s.destRemain > 0) := by omega
    simp [blockWriteTurn, blockWriteLoop, hzero]
  | succ fuel ih =>
    rw [blockWriteLoop]
    cases hturn : blockWriteTurn a img partSize s with
    | inl s' =>
      refine .next hturn (ih ?_)
      obtain ⟨n, k, hn, -, hpos, -, -, -, rfl⟩ := blockWriteTurn_next hturn
      have hlen : 0 < blockWriteLen := by decide
      show s.srcRemain - n ≤ fuel
      omega
    | inr r => exact .stop hturn

/-- Both sides have the same left to copy, and what is behind is copied. -/
structure Copied (img : Bytes) (size : Nat) (s : CopyState) : Prop where
  remain : s.srcRemain = s.destRemain
  pos : s.srcPos = s.destPos
  size : s.srcPos + s.srcRemain = size
  inImage : s.srcPos ≤ img.length
  dest : s.dest.read 0 s.srcPos = img.take s.srcPos

theorem copied_start (img : Bytes) (size : Nat) (dest : Content) :
    Copied img size (.start size dest) :=
  ⟨rfl, rfl, Nat.zero_add size, Nat.zero_le _, rfl⟩

theorem Copied.next {size : Nat} (hs : Copied img size s)
    (h : blockWriteTurn a img partSize s = .inl s') : Copied img size s' := by
  obtain ⟨n, k, hn, hk, hsrc, -, himg, -, rfl⟩ := blockWriteTurn_next h
  have hremain := hs.remain
  have hpos := hs.pos
  have hsize := hs.size
  obtain rfl : k = n := by rw [hn, hk, hremain]
  have hlen : ((img.drop s.srcPos).take k).length = k := by
    rw [List.length_take, List.length_drop]
    omega
  refine ⟨?_, ?_, ?_, himg, ?_⟩
  · show s.srcRemain - k = s.destRemain - k
    rw [hremain]
  · show s.srcPos + k = s.destPos + k
    rw [hpos]
  · show s.srcPos + k + (s.srcRemain - k) = size
    omega
  · show (s.dest.overwrite s.destPos _).read 0 (s.srcPos + k) = img.take (s.srcPos + k)
    have hold : (s.dest.overwrite s.srcPos ((img.drop s.srcPos).take k)).read 0 s.srcPos =
        s.dest.read 0 s.srcPos :=
      Content.read_congr fun j _ hj => Content.overwrite_before (by omega)
    have hnew := Content.read_overwrite s.dest s.srcPos ((img.drop s.srcPos).take k)
    rw [hlen] at hnew
    rw [List.take_left' hlen, ← hpos, Content.read_add, Nat.zero_add, hold, hs.dest, hnew, ← List.take_add]

/-- At every turn both counters are the same. -/
theorem srcRemain_eq_destRemain {size : Nat} {dest : Content}
    (h : Loop.Reaches (blockWriteTurn a img partSize) (.start size dest) s) :
    s.srcRemain = s.destRemain :=
  (h.invariant (fun _ _ hs hturn => hs.next hturn) (copied_start img size dest)).remain

/-- A `block_write` that returns 0 has copied all it was to copy. -/
theorem blockWrite_success {size : Nat} {dest : Content}
    (h : (blockWrite a img partSize size dest).1 = 0) :
    size ≤ img.length ∧ (blockWrite a img partSize size dest).2.read 0 size = img.take size := by
  have hloop : blockWrite a img partSize size dest = blockWriteLoop a img partSize size (.start size dest) := by
    unfold blockWrite at h ⊢
    cases hopenSrc : a.openSrc <;> cases hseekSrc : a.seekSrc <;> cases hopenDest : a.openDest <;>
      cases hseekDest : a.seekDest <;> simp_all
  have hends : Loop.Ends (blockWriteTurn a img partSize) (.start size dest)
      (blockWrite a img partSize size dest) := by
    rw [hloop]
    exact blockWriteLoop_ends (Nat.le_refl _)
  obtain ⟨s, hreach, hstop⟩ := hends.exists_reaches
  have hcopied := hreach.invariant (fun _ _ hs hturn => hs.next hturn) (copied_start img size dest)
  rcases blockWriteTurn_stop hstop with hret | ⟨-, hdest, hdone⟩
  · exact absurd (h.symm.trans hret) (by decide)
  · have hsize := hcopied.size
    have hremain := hcopied.remain
    obtain rfl : s.srcPos = size := by omega
    rw [hdest]
    exact ⟨hcopied.inImage, hcopied.dest⟩

/-! ## The update of a partition -/

/-- What the calls made by `flash_write_partition` answer on a block device. -/
structure BlockImageAnswers where
  stat : Bool
  write : BlockWriteAnswers
  /-- The size of the device. -/
  partSize : Nat
  compare : CompareAnswers
  stale : StaleArrays
  remove : Bool

/-- The calls of `flash_write_partition` for image `img`, with `dest` on the device. -/
def BlockImageAnswers.image (w : BlockImageAnswers) (md5 : Md5) (destPath : String) (img : Bytes)
    (dest : Content) : ImageWriteAnswers where
  stat := w.stat
  write := (blockWrite w.write img w.partSize img.length dest).1
  left := fun dest => (blockWrite w.write img w.partSize img.length dest).2
  compare := comparefile md5 w.compare w.stale
    ⟨destPath, some ((blockWrite w.write img w.partSize img.length dest).2.read 0 w.partSize), some img,
      0, 0, img.length⟩
  remove := w.remove

/-- A `flash_write_partition` that returns 0 or removes the image has passed the write. -/
theorem flashWritePartition_written {w : ImageWriteAnswers} {srcPath destPath : String} {m : Machine}
    {img : Bytes} (hfile : m.files srcPath = some img)
    (h : (flashWritePartition w srcPath destPath m).1 = 0 ∨
      (flashWritePartition w srcPath destPath m).2.files srcPath = none) :
    w.write = 0 ∧ (flashWritePartition w srcPath destPath m).2.devs destPath = w.left (m.devs destPath) := by
  unfold flashWritePartition at h ⊢
  split at h
  · simp [hfile] at h
  · next hstat =>
    rw [if_neg hstat]
    dsimp only at h ⊢
    split at h
    · next hwrite => simp [hwrite, hfile, Machine.withDev] at h
    · next hwrite =>
      rw [if_neg hwrite]
      split at h
      · next hcompare => simp [hcompare, hfile, Machine.withDev] at h
      · next hcompare =>
        rw [if_neg hcompare]
        refine ⟨not_not.mp hwrite, ?_⟩
        cases w.remove <;> simp [Machine.withDev]

/-- The loop of `block_write` keeps its counters equal and ends; and whatever the calls answer,
an update of a block device returns 0 or removes the image only when the device begins with
the bytes of the image. -/
theorem image_removed_after_copy (md5 : Md5) :
    (∀ (a : BlockWriteAnswers) (img : Bytes) (partSize size : Nat) (dest : Content),
      (∀ s, Loop.Reaches (blockWriteTurn a img partSize) (.start size dest) s →
        s.srcRemain = s.destRemain) ∧
      Loop.Ends (blockWriteTurn a img partSize) (.start size dest)
        (blockWriteLoop a img partSize size (.start size dest))) ∧
    ∀ (w : BlockImageAnswers) (srcPath destPath : String) (img : Bytes) (m : Machine),
      m.files srcPath = some img →
      let r := flashWritePartition (w.image md5 destPath img (m.devs destPath)) srcPath destPath m
      r.1 = 0 ∨ r.2.files srcPath = none → (r.2.devs destPath).read 0 img.length = img := by
  constructor
  · intro a img partSize size dest
    exact ⟨fun s hreach => srcRemain_eq_destRemain hreach,
      blockWriteLoop_ends (Nat.le_refl _)⟩
  · intro w srcPath destPath img m hfile r h
    obtain ⟨hwrite, hdevs⟩ := flashWritePartition_written hfile h
    have hcopy := (blockWrite_success hwrite).2
    rw [List.take_length] at hcopy
    rw [hdevs]
    exact hcopy

/-- Every call succeeds, on a device of four bytes. -/
def BlockImageAnswers.healthy : BlockImageAnswers :=
  ⟨true, ⟨true, true, true, true, fun _ => blockWriteLen, fun _ => blockWriteLen⟩, 4,
    ⟨false, .broken, .healthy, .healthy⟩, zeroArrays, true⟩

/-- A machine with one image. -/
def imageMachine : Machine :=
  ⟨fun url => if url = "/mnt/boot.img" then some [0x61, 0x62, 0x63] else none, fun _ _ => 0, [], []⟩

theorem image_removed_after_copy_abc :
    ((flashWritePartition (BlockImageAnswers.healthy.image sampleMd5 "/dev/boot_b" [0x61, 0x62, 0x63]
      (imageMachine.devs "/dev/boot_b")) "/mnt/boot.img" "/dev/boot_b" imageMachine).2.devs
        "/dev/boot_b").read 0 3 = [0x61, 0x62, 0x63] :=
  (image_removed_after_copy sampleMd5).2 .healthy "/mnt/boot.img" "/dev/boot_b" [0x61, 0x62, 0x63]
    imageMachine rfl (.inl (by decide +kernel))

end LinuxOta.Bootloader
