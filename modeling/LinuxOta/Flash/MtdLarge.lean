-- SUMMARY: On a faultless medium, `mtd_read_data` and `mtd_write_data` reach all of a partition below 2 GiB, and nothing of a larger one.
import LinuxOta.Flash.MtdLaw
import LinuxOta.Flash.MtdWidths

namespace LinuxOta.Mtd

open Widths

/-! # Large partitions

The size of a partition is an `unsigned int`, and `read_block` and `write_block` compare
positions with it as an `int`. From 2 GiB on it is negative there. -/

/-- A medium without bad blocks, whose blocks do what they should. -/
def Medium.faultless (left : Content) : Medium := .withBad (fun _ => false) (fun _ => Block.healthy) left

/-- On a faultless medium with the content `c`, a call on a fresh context reads the first `n`
bytes of the partition, and one writes as many. -/
structure Transfers (w : LongWidth) (part : MtdPartition) (left c : Content) (failed n : Nat) : Prop where
  reads : (Widths.readData w ((Medium.faultless left).readDriver part) part n (readPartition part ⟨c, failed⟩)).1 =
    some (c.read 0 n)
  writes : ∀ data : Bytes, data.length = n →
    (Widths.writeData w ((Medium.faultless left).writeDriver part) part data
      ⟨(writePartition ⟨c, fun _ => 0⟩).writer, []⟩).map Prod.fst = some (n : Int)

section
variable {w : LongWidth} {part : MtdPartition} {n : Nat}

/-! ## Below 2 GiB -/

/-- The bytes of a partition fit into its blocks. -/
theorem count_le_of_le (hwhole : part.eraseSize ∣ part.size) (hn : n ≤ part.size) :
    Blocks.count part.eraseSize n ≤ part.size / part.eraseSize := by
  rw [Blocks.count_le_iff part.eraseSize_pos, Nat.div_mul_cancel hwhole]
  exact hn

theorem readData_faultless (hwhole : part.eraseSize ∣ part.size) (hsize : part.size < 2 ^ 31)
    (hn : n ≤ part.size) (left c : Content) (failed : Nat) :
    (readData ((Medium.faultless left).readDriver part) part n (readPartition part ⟨c, failed⟩)).1 =
      some (c.read 0 n) := by
  have hcount := count_le_of_le hwhole hn
  have henough := (Blocks.count_le_iff part.eraseSize_pos).mp (Nat.le_refl (Blocks.count part.eraseSize n))
  have hread := readData_medium (Medium.faultless left) part c failed (show n < 2 ^ 31 by omega)
  dsimp only at hread
  rw [Medium.faultless, withBad_deliverers hsize, goodBlocks_of_no_bad fun _ _ => rfl, List.length_range,
    if_pos hcount, List.take_range, Nat.min_eq_left hcount, Content.flatten_read] at hread
  rw [Medium.faultless, hread]
  obtain ⟨rest, hrest⟩ := Nat.exists_eq_add_of_le henough
  rw [hrest, Content.read_add, List.take_left' (c.read_length 0 n)]

/-- All complete blocks of the data are stored. -/
theorem writeBlocks_faultless (hsize : part.size < 2 ^ 31) {data : Bytes}
    (hdata : data.length ≤ part.size) (left c : Content) :
    ∃ writer, writeBlocks (writeBlock ((Medium.faultless left).writeDriver part) part) (Blocks.whole part.eraseSize data)
      (writePartition ⟨c, fun _ => 0⟩).writer = some writer := by
  have hpos := part.eraseSize_pos
  have hcount : (Blocks.whole part.eraseSize data).length ≤ part.size / part.eraseSize := by
    rw [Blocks.whole_length]
    exact Nat.div_le_div_right hdata
  have hblocks := writeBlocks_fresh (Medium.faultless left) part
    (fun b (hb : b ∈ Blocks.whole part.eraseSize data) => Blocks.length_of_mem_whole hpos hb) c
  rw [Medium.faultless, withBad_takers hsize, goodBlocks_of_no_bad fun _ _ => rfl, List.length_range,
    if_pos hcount] at hblocks
  obtain ⟨writer, hwriter, -⟩ := hblocks
  exact ⟨writer, hwriter⟩

theorem writeData_faultless (hsize : part.size < 2 ^ 31) {data : Bytes}
    (hdata : data.length ≤ part.size) (left c : Content) :
    (Widths.writeData w ((Medium.faultless left).writeDriver part) part data
      ⟨(writePartition ⟨c, fun _ => 0⟩).writer, []⟩).map Prod.fst = some (data.length : Int) := by
  obtain ⟨writer, hblocks⟩ := writeBlocks_faultless hsize hdata left c
  have hgives := writeData_gives w ((Medium.faultless left).writeDriver part) part data ⟨c, fun _ => 0⟩
  rw [Chunks.Gives, handOver_of_writeBlocks (writeBlocks_of_success hsize hblocks)] at hgives
  rw [hgives]
  rfl

theorem transfers_small (hwhole : part.eraseSize ∣ part.size) (hsize : part.size < 2 ^ 31) (hn : n ≤ part.size)
    (hpos : 0 < n) (left c : Content) (failed : Nat) : Transfers w part left c failed n where
  reads := by
    have hle := Nat.le_of_dvd (Nat.lt_of_lt_of_le hpos hn) hwhole
    rw [readData_eq (w.cast_of_lt (Nat.lt_of_le_of_lt hle hsize))]
    exact readData_faultless hwhole hsize hn left c failed
  writes data hdata := by
    rw [← hdata]
    exact writeData_faultless hsize (hdata ▸ hn) left c

theorem transfers_nothing {left c : Content} {failed : Nat} : Transfers w part left c failed 0 where
  reads := rfl
  writes data hdata := by
    obtain rfl := List.length_eq_zero_iff.mp hdata
    rfl

/-! ## From 2 GiB on -/

section
variable {σ : Type} {dev : Driver σ}

/-- `(int) partition->size` is negative, so that no block is got to, or `read` cannot transfer one. -/
theorem readBlockFrom_large (hsize : 2 ^ 31 ≤ part.size) :
    ∀ (fuel pos before : Nat) (fd : Fd σ),
      (readBlockFromBy dev part (w.cast part.eraseSize) (Widths.readAt w dev part) fuel pos before fd).1 = none := by
  have hlt := part.size_lt
  have hneg : asInt32 part.size < 0 := asInt32_neg_iff.mpr (by omega)
  intro fuel
  induction fuel with
  | zero => exact fun _ _ _ => rfl
  | succ fuel ih =>
    intro pos before fd
    rw [readBlockFromBy]
    split
    swap
    · rfl
    have hcast : w.cast part.eraseSize < 0 := by omega
    simp only [Widths.readAt, hcast, ↓reduceIte]
    exact ih _ _ _

theorem readBlock_large (hsize : 2 ^ 31 ≤ part.size) (fd : Fd σ) :
    (Widths.readBlock w dev part fd).1 = none := by
  rw [Widths.readBlock, readBlockBy]
  generalize fd.eccGetStats dev = r
  obtain ⟨failed, fd₁⟩ := r
  cases failed with
  | none => rfl
  | some before => exact readBlockFrom_large hsize _ _ _ _

/-- No byte of a large partition is read. Neither is the loop of `mtd_read_data` entered when
so many bytes are asked for, nor does `read_block` get to a block. -/
theorem readData_large (hsize : 2 ^ 31 ≤ part.size) (hn : n ≤ part.size) (hpos : 0 < n) (state : σ) :
    (Widths.readData w dev part n (readPartition part state)).1 = if n < 2 ^ 31 then none else some [] := by
  have hlt := part.size_lt
  by_cases hint : n < 2 ^ 31
  swap
  · rw [if_neg hint, Widths.readData_negative dev (asInt32_neg_iff.mpr (by omega))]
  rw [Widths.readData, readDataBy, readDataFromBy]
  have hcopy : copyAvailable part n [] (readPartition part state) = ([], readPartition part state) :=
    if_neg (Nat.lt_irrefl _)
  have hfirst : (Widths.readBlock w dev part (readPartition part state).fd).1 = none := readBlock_large hsize _
  rw [if_pos hint, asInt32_of_lt hint, if_pos (by simp only [List.length_nil]; omega), hcopy]
  dsimp only
  obtain ⟨k, rfl⟩ : ∃ k, n = k + 1 := ⟨n - 1, by omega⟩
  rw [readWholeBlocksBy]
  cases hcall : Widths.readBlock w dev part (readPartition part state).fd with
  | mk block fd =>
    rw [hcall] at hfirst
    obtain rfl : block = none := hfirst
    by_cases hturn : (readPartition part state).consumed = part.eraseSize ∧
        k + 1 - ([] : Bytes).length ≥ part.eraseSize
    · rw [if_pos hturn]
    · rw [if_neg hturn]
      dsimp only
      rw [if_neg (by simp), if_pos ⟨rfl, by simp only [List.length_nil]; omega⟩, hcall]

/-- No block is written to a large partition, at least not from its first 2 GiB on. -/
theorem writeBlock_large (hsize : 2 ^ 31 ≤ part.size) {data : Bytes} {writer : BlockWriter σ}
    (hpos : writer.fd.pos + part.eraseSize < 2 ^ 31) : (Widths.writeBlock w dev part data writer).1 ≠ 0 := by
  have hlt := part.size_lt
  have hneg : asInt32 part.size < 0 := asInt32_neg_iff.mpr (by omega)
  rw [Widths.writeBlock, writeBlockBy]
  have hkept : (writer.fd.tell dev).2.pos = writer.fd.pos := rfl
  generalize writer.fd.tell dev = r at hkept
  obtain ⟨ok, fd⟩ := r
  cases ok with
  | false => exact (show (1 : Int) ≠ 0 by decide)
  | true =>
    have hend : ¬ (positions w part).fits fd.pos := by
      rw [positions_fits, show fd.pos = writer.fd.pos from hkept, w.cast_of_lt hpos]
      omega
    dsimp only
    rw [writeBlockFromBy, if_neg (show ¬ (!true) = true by decide), if_neg hend]
    exact (show (-1 : Int) ≠ 0 by decide)

theorem writeData_large (hsize : 2 ^ 31 ≤ part.size) (herase : part.eraseSize < 2 ^ 31) {data : Bytes}
    (hdata : part.eraseSize ≤ data.length) (state : σ) :
    (Widths.writeData w dev part data ⟨(writePartition state).writer, []⟩).map Prod.fst = some (-1) := by
  have hblock : ∀ b, (Widths.writeBlock w dev part b (writePartition state).writer).1 ≠ 0 :=
    fun b => writeBlock_large hsize (Nat.lt_of_le_of_lt (Nat.le_of_eq (Nat.zero_add _)) herase)
  have hgives := writeData_gives w dev part data state
  rw [Chunks.Gives, Blocks.whole_of_le part.eraseSize_pos hdata, Chunks.handOver_cons_of_fails (hblock _)] at hgives
  obtain ⟨buffer, -, hgives⟩ := hgives
  rw [hgives]
  rfl

end

end

/-- A partition is read and written like a small one if and only if it is below 2 GiB, or no
byte is asked for. -/
theorem large_partition_iff (w : LongWidth) (part : MtdPartition) (hwhole : part.eraseSize ∣ part.size)
    (left c : Content) (failed : Nat) {n : Nat} (hn : n ≤ part.size) :
    Transfers w part left c failed n ↔ part.size < 2 ^ 31 ∨ n = 0 := by
  constructor
  · rintro ⟨hread, -⟩
    by_contra hlarge
    rw [not_or, Nat.not_lt] at hlarge
    rw [readData_large hlarge.1 hn (Nat.pos_of_ne_zero hlarge.2)] at hread
    split at hread
    · cases hread
    · have hlen := congrArg List.length (Option.some.inj hread)
      rw [Content.read_length] at hlen
      exact hlarge.2 hlen.symm
  · rintro (hsmall | rfl)
    · rcases Nat.eq_zero_or_pos n with rfl | hpos
      · exact transfers_nothing
      · exact transfers_small hwhole hsmall hn hpos left c failed
    · exact transfers_nothing

/-- Three bytes of two blocks. -/
theorem large_partition_iff_three_bytes :
    Transfers .bits32 ⟨4, 2, by decide, by decide⟩ (fun _ => 255) UInt8.ofNat 0 3 :=
  (large_partition_iff .bits32 ⟨4, 2, by decide, by decide⟩ (by decide) (fun _ => 255) UInt8.ofNat 0
    (by decide : 3 ≤ 4)).mpr (.inl (by decide))

/-- One block of a partition of 2 GiB. -/
theorem large_partition_fails :
    let part : MtdPartition := ⟨2 ^ 31, 2 ^ 17, by decide, by decide⟩
    let med := Medium.faultless fun _ => 255
    (∀ w,
      (Widths.readData w (med.readDriver part) part (2 ^ 17) (readPartition part ⟨fun _ => 0, 0⟩)).1 = none ∧
      (Widths.writeData w (med.writeDriver part) part (List.replicate (2 ^ 17) 0)
        ⟨(writePartition ⟨fun _ => 0, fun _ => 0⟩).writer, []⟩).map Prod.fst = some (-1)) ∧
      ¬ ∀ (w : LongWidth) (part : MtdPartition) (left c : Content) (failed n : Nat), 0 < part.size →
        part.eraseSize ∣ part.size → n ≤ part.size → w = .bits64 ∨ n < 2 ^ 31 →
        Transfers w part left c failed n := by
  intro part med
  have hread : ∀ w, (Widths.readData w (med.readDriver part) part (2 ^ 17)
      (readPartition part ⟨fun _ => 0, 0⟩)).1 = none := by
    intro w
    rw [readData_large (Nat.le_refl _) (by decide) (by decide), if_pos (by decide)]
  refine ⟨fun w => ⟨hread w, ?_⟩, fun h => ?_⟩
  · exact writeData_large (Nat.le_refl _) (by decide) (Nat.le_of_eq List.length_replicate.symm) _
  · have hclaim := h .bits64 part (fun _ => 255) (fun _ => 0) 0 (2 ^ 17) (by decide) (by decide) (by decide) (.inl rfl)
    exact absurd ((hread .bits64).symm.trans hclaim.reads) (by simp)

end LinuxOta.Mtd
