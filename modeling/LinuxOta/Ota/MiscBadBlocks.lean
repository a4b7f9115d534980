-- SUMMARY: When ota can use a misc partition on MTD with bad blocks: only if there are none.
import LinuxOta.Flash.MtdLaw
import LinuxOta.Ota.Misc

namespace LinuxOta.Misc

open Mtd

/-! # Bad blocks in misc -/

/-- The misc partition `part` on a medium with content `c`. -/
def mtdAccess (med : Medium) (part : MtdPartition) (c : Content) : MtdAccess Scan Wear where
  part := some part
  totalSize := some part.size
  read := some (med.readDriver part, ⟨c, 0⟩)
  write := some (med.writeDriver part, ⟨c, fun _ => 0⟩)

/-- The content as the good blocks hold it, one after the other. -/
def logical (part : MtdPartition) (bad : Nat → Bool) (c : Content) : Bytes :=
  ((goodBlocks part bad).map fun i => c.read (i * part.eraseSize) part.eraseSize).flatten

variable {part : MtdPartition} {bad : Nat → Bool} {worn : Nat → Block} {left c : Content}

theorem count_size (hmul : part.eraseSize ∣ part.size) :
    Blocks.count part.eraseSize part.size = part.size / part.eraseSize := by
  have hpos := part.eraseSize_pos
  have hsize := Nat.div_mul_cancel hmul
  refine Nat.le_antisymm ((Blocks.count_le_iff hpos).mpr (Nat.le_of_eq hsize.symm)) ?_
  have hle := (Blocks.count_le_iff hpos).mp (Nat.le_refl (Blocks.count part.eraseSize part.size))
  exact Nat.div_le_of_le_mul (by rw [Nat.mul_comm]; exact hle)

/-- There are as many good blocks as the size needs just when no block is bad. -/
theorem count_le_goodBlocks_iff (hmul : part.eraseSize ∣ part.size) :
    Blocks.count part.eraseSize part.size ≤ (goodBlocks part bad).length ↔
      ∀ i < part.size / part.eraseSize, bad i = false := by
  have hle : (goodBlocks part bad).length ≤ (List.range (part.size / part.eraseSize)).length :=
    List.length_filter_le _ _
  rw [List.length_range] at hle
  have hall := List.length_filter_eq_length_iff (p := fun i => !bad i)
    (l := List.range (part.size / part.eraseSize))
  rw [List.length_range] at hall
  rw [count_size hmul]
  constructor
  · intro hge i hi
    simpa using hall.mp (Nat.le_antisymm hle hge) i (List.mem_range.mpr hi)
  · intro hgood
    exact Nat.le_of_eq (hall.mpr fun i hi => by simp [hgood i (List.mem_range.mp hi)]).symm

/-- All of them are needed for the whole of the partition. -/
theorem take_goodBlocks_of_no_bad (hmul : part.eraseSize ∣ part.size)
    (hgood : ∀ i < part.size / part.eraseSize, bad i = false) :
    (goodBlocks part bad).take (Blocks.count part.eraseSize part.size) = goodBlocks part bad := by
  rw [goodBlocks_of_no_bad hgood, count_size hmul]
  exact List.take_of_length_le (Nat.le_of_eq List.length_range)

theorem logical_of_no_bad (hmul : part.eraseSize ∣ part.size)
    (hgood : ∀ i < part.size / part.eraseSize, bad i = false) (c : Content) :
    logical part bad c = c.read 0 part.size := by
  rw [logical, goodBlocks_of_no_bad hgood, Content.flatten_read, Nat.div_mul_cancel hmul]

/-- All of the partition can only be read when no block is bad. -/
theorem readTotal_withBad (bad : Nat → Bool) (worn : Nat → Block) (left c : Content)
    (hsize : part.size < 2 ^ 31) (hmul : part.eraseSize ∣ part.size) :
    readTotal (mtdAccess (Medium.withBad bad worn left) part c) =
      if ∀ i < part.size / part.eraseSize, bad i = false then some (part, c.read 0 part.size) else none := by
  have hdata := readData_medium (Medium.withBad bad worn left) part c 0 hsize
  dsimp only at hdata
  rw [withBad_deliverers hsize] at hdata
  simp only [readTotal, mtdAccess, hdata, count_le_goodBlocks_iff hmul]
  by_cases hgood : ∀ i < part.size / part.eraseSize, bad i = false
  · have htake := take_goodBlocks_of_no_bad hmul hgood
    have hall : ((goodBlocks part bad).map fun i => c.read (i * part.eraseSize) part.eraseSize).flatten =
        c.read 0 part.size := logical_of_no_bad hmul hgood c
    rw [if_pos hgood, if_pos hgood, htake, hall,
      List.take_of_length_le (Nat.le_of_eq (Content.read_length _ _ _))]
    exact if_neg (by simp)
  · rw [if_neg hgood, if_neg hgood]

/-- Without bad blocks a write replaces its range. -/
theorem writeMiscMtd_of_no_bad (worn : Nat → Block) (left c : Content) (hsize : part.size < 2 ^ 31)
    (hmul : part.eraseSize ∣ part.size)
    (hgood : ∀ i < part.size / part.eraseSize, bad i = false) {buf : Bytes} {offset : Nat}
    (hfits : offset + buf.length ≤ part.size) :
    ∃ s, writeMiscMtd (mtdAccess (Medium.withBad bad worn left) part c) buf offset = (0, some s) ∧
      s.content.read 0 part.size = (c.overwrite offset buf).read 0 part.size := by
  have hpos := part.eraseSize_pos
  have hlen : ((c.overwrite offset buf).read 0 part.size).length = part.size :=
    Content.read_length _ _ _
  have hwrite := writeAll_medium (Medium.withBad bad worn left) part [(c.overwrite offset buf).read 0 part.size] c
  dsimp only at hwrite
  rw [withBad_takers hsize, Blocks.padded_length hpos, List.flatten_singleton, hlen,
    if_pos ((count_le_goodBlocks_iff hmul).mpr hgood)] at hwrite
  obtain ⟨hrets, hstored, -⟩ := hwrite
  have hrets := hrets hsize
  simp only [writeAll_singleton, List.map_singleton, List.cons_append, List.nil_append,
    List.cons.injEq, and_true, hlen] at hrets
  obtain ⟨hwrote, hclosed⟩ := hrets
  rw [writeMiscMtd, readTotal_withBad bad worn left c hsize hmul, if_pos hgood, writeBack]
  dsimp only
  rw [← Content.read_zero_overwrite hfits]
  simp only [mtdAccess, hwrote, hclosed, hlen, ne_eq, not_true_eq_false, ↓reduceIte, Prod.mk.injEq,
    true_and, Option.some.injEq, exists_eq_left']
  -- the good blocks hold the whole of the new content
  obtain ⟨zeros, -, hpadded⟩ :=
    Blocks.flatten_padded hpos 0 ((c.overwrite offset buf).read 0 part.size)
  have htake := take_goodBlocks_of_no_bad hmul hgood
  have hblocks := congrArg List.flatten hstored.holds
  rw [htake, hpadded] at hblocks
  have hread := (logical_of_no_bad hmul hgood _).symm.trans hblocks
  have hzeros : zeros = 0 := by
    have hlens := congrArg List.length hread
    rw [Content.read_length, List.length_append, hlen, List.length_replicate] at hlens
    omega
  rw [hzeros, List.replicate_zero, List.append_nil] at hread
  exact hread

/-- With `readMisc_mtd` and `writeMisc_mtd` the bytes from `offset` on can be read, and be
replaced by `buf`, in what the good blocks hold. -/
structure Usable (part : MtdPartition) (bad : Nat → Bool) (worn : Nat → Block) (left c : Content)
    (buf : Bytes) (offset : Nat) : Prop where
  reads : readMiscMtd (mtdAccess (Medium.withBad bad worn left) part c) offset buf.length =
    (0, ((logical part bad c).drop offset).take buf.length)
  writes : ∃ s, writeMiscMtd (mtdAccess (Medium.withBad bad worn left) part c) buf offset = (0, some s) ∧
    logical part bad s.content =
      (logical part bad c).take offset ++ buf ++ (logical part bad c).drop (offset + buf.length)

/-- Where the good blocks hold the range, it can be used just when no block is bad. -/
theorem misc_usable_iff (part : MtdPartition) (hsize : part.size < 2 ^ 31)
    (hmul : part.eraseSize ∣ part.size)
    (bad : Nat → Bool) (worn : Nat → Block) (left c : Content) (buf : Bytes) (offset : Nat)
    (hfits : offset + buf.length ≤ (goodBlocks part bad).length * part.eraseSize) :
    Usable part bad worn left c buf offset ↔ ∀ i < part.size / part.eraseSize, bad i = false := by
  have htotal := readTotal_withBad bad worn left c hsize hmul
  constructor
  · intro h
    refine Classical.byContradiction fun hbad => ?_
    have hread := h.reads
    rw [readMiscMtd, htotal, if_neg hbad] at hread
    have hret : (-1 : Int) = 0 := congrArg Prod.fst hread
    exact absurd hret (by decide)
  · intro hgood
    have hrange : offset + buf.length ≤ part.size := hfits.trans (goodBlocks_length_le part bad)
    constructor
    · rw [readMiscMtd, htotal, if_pos hgood, logical_of_no_bad hmul hgood]
    · obtain ⟨s, hret, hcontent⟩ := writeMiscMtd_of_no_bad worn left c hsize hmul hgood hrange
      refine ⟨s, hret, ?_⟩
      rw [logical_of_no_bad hmul hgood, logical_of_no_bad hmul hgood, hcontent,
        Content.read_zero_overwrite hrange]

theorem misc_usable_iff_two_blocks :
    Usable ⟨4, 2, by decide, by decide⟩ (fun _ => false) (fun _ => Block.healthy) (fun _ => 255) (fun _ => 0) [7] 1 :=
  (misc_usable_iff ⟨4, 2, by decide, by decide⟩ (by decide) (by decide) (fun _ => false) (fun _ => Block.healthy)
    (fun _ => 255) (fun _ => 0) [7] 1 (by decide)).mpr fun _ _ => rfl

/-- The good one of two blocks holds the byte, but it can neither be read nor written. -/
theorem misc_unusable_with_bad_block :
    let part : MtdPartition := ⟨4, 2, by decide, by decide⟩
    let a := mtdAccess (Medium.withBad (· == 1) (fun _ => Block.healthy) fun _ => 255) part fun _ => 0
    0 + 1 ≤ (goodBlocks part (· == 1)).length * 2 ∧ readMiscMtd a 0 1 = (-1, [0]) ∧
      (writeMiscMtd a [7] 0).1 = -1 := by
  decide +kernel

end LinuxOta.Misc
