-- SUMMARY: On a medium with bad blocks, what was written to it through `mtd_write_data` is read back by `mtd_read_data`.
import LinuxOta.Flash.MtdOffsets
import LinuxOta.Flash.MtdReading
import Mathlib.Algebra.Order.BigOperators.Group.List
import Mathlib.Algebra.Order.Group.Nat

namespace LinuxOta.Mtd

/-! # Media with bad blocks -/

/-- A block that is not bad and does what it should. -/
def Block.healthy : Block where
  badBlock := .good
  attempt _ := ⟨true, .whole (), fun data j => data.getD j 0, .whole ()⟩
  reading := .clean

/-- A medium whose bad blocks are those of `bad`, where they behave like those of `worn`. -/
def Medium.withBad (bad : Nat → Bool) (worn : Nat → Block) (left : Content) : Medium where
  block i := if bad i then { worn i with badBlock := .bad } else Block.healthy
  left := left

/-- The blocks of the partition that are not bad, in increasing address order. -/
def goodBlocks (part : MtdPartition) (bad : Nat → Bool) : List Nat :=
  (List.range (part.size / part.eraseSize)).filter fun i => !bad i

section
variable {part : MtdPartition} {bad : Nat → Bool} {worn : Nat → Block} {left : Content}

theorem withBad_tried (i : Nat) : ((Medium.withBad bad worn left).block i).tried = !bad i := by
  cases h : bad i <;> simp [Medium.withBad, h, Block.tried, Block.healthy]

theorem healthy_takes (data : Bytes) : Block.healthy.takes data = true := by
  have hheld : Content.read (fun j => data[j]?.getD 0) 0 data.length = data :=
    Content.read_zero_eq_iff.mpr fun j hj => by simp [hj]
  simp [Block.takes, Block.tried, Block.healthy, Attempt.lands, hheld]

theorem withBad_takes (data : Bytes) (i : Nat) :
    ((Medium.withBad bad worn left).block i).takes data = !bad i := by
  cases h : bad i
  · simp [Medium.withBad, h, healthy_takes]
  · simp [Medium.withBad, h, Block.takes, Block.tried]

theorem withBad_delivers (i : Nat) :
    ((Medium.withBad bad worn left).block i).delivers = !bad i := by
  cases h : bad i <;> simp [Medium.withBad, h, Block.delivers, Block.healthy]

theorem blockCount_of_lt (hsize : part.size < 2 ^ 31) :
    blockCount part = part.size / part.eraseSize := by
  rw [blockCount, asInt32_of_lt hsize, Int.toNat_natCast]

theorem goodBlocks_eq (hsize : part.size < 2 ^ 31) (bad : Nat → Bool) :
    goodBlocks part bad = Picks.all (fun i => !bad i) (blockCount part) 0 := by
  rw [goodBlocks, Picks.all, Nat.sub_zero, blockCount_of_lt hsize, List.range_eq_range']

theorem withBad_deliverers (hsize : part.size < 2 ^ 31) :
    deliverers part (Medium.withBad bad worn left).block = goodBlocks part bad := by
  rw [deliverers, goodBlocks_eq hsize]
  congr 1
  funext i
  exact withBad_delivers i

/-- The blocks of a string go to the first good blocks. -/
theorem withBad_takers (hsize : part.size < 2 ^ 31) (bs : List Bytes) :
    takers part (Medium.withBad bad worn left).block bs =
      if bs.length ≤ (goodBlocks part bad).length then some ((goodBlocks part bad).take bs.length) else none := by
  rw [takers, takersBelow, Picks.picks_eq (p := fun i => !bad i) (fun b _ => funext fun i => withBad_takes b i),
    goodBlocks_eq hsize]

theorem goodBlocks_length_le (part : MtdPartition) (bad : Nat → Bool) :
    (goodBlocks part bad).length * part.eraseSize ≤ part.size := by
  have hle : (goodBlocks part bad).length ≤ part.size / part.eraseSize := by
    rw [goodBlocks]
    exact (List.length_filter_le _ _).trans (Nat.le_of_eq List.length_range)
  exact (Nat.le_div_iff_mul_le part.eraseSize_pos).mp hle

theorem goodBlocks_congr {reported : Nat → Bool} (h : ∀ i < part.size / part.eraseSize, reported i = bad i) :
    goodBlocks part reported = goodBlocks part bad :=
  List.filter_congr fun i hi => by rw [h i (List.mem_range.mp hi)]

theorem goodBlocks_of_no_bad (hgood : ∀ i < part.size / part.eraseSize, bad i = false) :
    goodBlocks part bad = List.range (part.size / part.eraseSize) :=
  List.filter_eq_self.mpr fun i hi => by simp [hgood i (List.mem_range.mp hi)]

end

/-- The calls with which `write_block` writes a block that has no faults. -/
def blockEvents (part : MtdPartition) (data : Bytes) (i : Nat) : List Event :=
  [.getBadBlock (i * part.eraseSize) .good, .erase (i * part.eraseSize) part.eraseSize,
    .write (i * part.eraseSize) data, .read (i * part.eraseSize) part.eraseSize (some data),
    .wroteBlock (i * part.eraseSize)]

section
variable {part : MtdPartition} {med : Medium} {n : Nat} {data : Bytes}

/-- A healthy block is erased, programmed and verified at the first try. -/
theorem tryBlock_healthy (hblock : med.block n = Block.healthy)
    (hdata : data.length = part.eraseSize) (fd : Fd Wear) :
    let r := tryBlock (med.writeDriver part) part (n * part.eraseSize) data fd
    r.1 = true ∧ r.2.pos = (n + 1) * part.eraseSize ∧
      r.2.state.content = fd.state.content.overwrite (n * part.eraseSize) data ∧
      r.2.journal = fd.journal ++ [.erase (n * part.eraseSize) part.eraseSize,
        .write (n * part.eraseSize) data, .read (n * part.eraseSize) part.eraseSize (some data)] := by
  have hi := mul_div_eraseSize part n
  have hheld : Content.read (fun j => data[j]?.getD 0) 0 data.length = data :=
    Content.read_zero_eq_iff.mpr fun j hj => by simp [hj]
  have hcontent : (fd.state.content.overwrite (n * part.eraseSize)
      (med.left.read (n * part.eraseSize) part.eraseSize)).overwrite (n * part.eraseSize) data =
      fd.state.content.overwrite (n * part.eraseSize) data :=
    Content.overwrite_overwrite (by rw [Content.read_length, hdata])
  have hread : Content.read (fun j => fd.state.content.overwrite (n * part.eraseSize) data
      (n * part.eraseSize + j)) 0 part.eraseSize = data := by
    have hback := Content.read_overwrite fd.state.content (n * part.eraseSize) data
    rw [hdata] at hback
    simpa [Content.read] using hback
  rw [Nat.succ_mul]
  simp [tryBlock, Fd.erase, Fd.writeAt, Fd.readAt, Fd.seek, Fd.write, Fd.read, Medium.writeDriver, hi, hblock,
    Block.healthy, Fd.log, Transfer.moves, hheld, hread, hcontent]

/-- A healthy block at the position takes the data. -/
theorem writeBlockFromBy_healthy {positions : Positions} (hblock : med.block n = Block.healthy)
    (hdata : data.length = part.eraseSize) (hfits : positions.fits (n * part.eraseSize)) (fuel : Nat)
    (w : BlockWriter Wear) :
    ∃ w', writeBlockFromBy (med.writeDriver part) part positions data (fuel + 1) (n * part.eraseSize) w = (0, w') ∧
      w'.fd.pos = (n + 1) * part.eraseSize ∧
      w'.fd.state.content = w.fd.state.content.overwrite (n * part.eraseSize) data ∧
      w'.fd.journal = w.fd.journal ++ blockEvents part data n := by
  have hquery : w.fd.getBadBlock (med.writeDriver part) (n * part.eraseSize) =
      (.good, w.fd.log (.getBadBlock (n * part.eraseSize) .good)) := by
    simp [Fd.getBadBlock, Medium.writeDriver, mul_div_eraseSize, hblock, Block.healthy]
  obtain ⟨hok, hpos, hcontent, hjournal⟩ :=
    tryBlock_healthy hblock hdata (w.fd.log (.getBadBlock (n * part.eraseSize) .good))
  rw [writeBlockFromBy, if_pos hfits, hquery]
  dsimp only
  rw [if_neg (by simp), retryBlock]
  generalize tryBlock (med.writeDriver part) part (n * part.eraseSize) data
    (w.fd.log (.getBadBlock (n * part.eraseSize) .good)) = r at hok hpos hcontent hjournal
  obtain ⟨ok, fd⟩ := r
  obtain rfl : ok = true := hok
  dsimp only at hpos hcontent hjournal ⊢
  refine ⟨_, rfl, hpos, hcontent, ?_⟩
  rw [Fd.log_journal, hjournal]
  simp [blockEvents]

end

/-- What the calls `calls` on a fresh context and its close leave of a medium that had the
content `c`: all have succeeded, the good blocks hold the string in their order, and the
bad ones are spared. -/
structure Written (part : MtdPartition) (bad : Nat → Bool) (calls : List Bytes) (c : Content)
    (rets : List Int) (journal : List Event) (c' : Content) : Prop where
  rets_eq : rets = calls.map (fun data => (data.length : Int)) ++ [0]
  holds : ∀ j g, j < Blocks.count part.eraseSize calls.flatten.length → (goodBlocks part bad)[j]? = some g →
    ∀ i < part.eraseSize, c' (g * part.eraseSize + i) = calls.flatten.getD (j * part.eraseSize + i) 0
  untouched : ∀ e ∈ journal, ∀ pos length, e.touches = some (pos, length) →
    ∀ j, pos ≤ j → j < pos + length → bad (j / part.eraseSize) = false
  unchanged : ∀ j, bad (j / part.eraseSize) = true → c' j = c j

/-- What calls on a fresh context read is the string `data`, in pieces of the lengths that
were asked for. -/
def ReadsBack (data : Bytes) (lens : List Nat) (results : List (Option Bytes)) : Prop :=
  ∃ pieces : List Bytes, results = pieces.map some ∧ pieces.map List.length = lens ∧ pieces.flatten = data

/-! ## Writing with an off_t -/

section
variable {part : MtdPartition} {block : Nat → Block} {data : Bytes} {ps : List Nat}

theorem takers_length (h : takers part block (Blocks.padded part.eraseSize 0 data) = some ps) :
    ps.length = Blocks.count part.eraseSize data.length := by
  rw [Picks.picks_length h, Blocks.padded_length part.eraseSize_pos]

/-- A partition that has the blocks of a string is larger than it, and its size is an `int`. -/
theorem size_of_count (h : Blocks.count part.eraseSize data.length ≤ blockCount part) (hdata : data ≠ []) :
    data.length ≤ part.size ∧ part.eraseSize ≤ part.size ∧ part.size < 2 ^ 31 := by
  have hpos := part.eraseSize_pos
  have hcap := blockCount_mul_le part (Nat.le_refl (blockCount part))
  have hfits := (Blocks.count_le_iff hpos).mp h
  have hblocks : 0 < blockCount part := by
    refine Nat.pos_of_ne_zero fun hzero => hdata (List.length_eq_zero_iff.mp ?_)
    rw [hzero, Nat.zero_mul] at hfits
    omega
  have hblock := Nat.mul_le_mul_right part.eraseSize hblocks
  refine ⟨by omega, by omega, lt_of_asInt32_pos part.size_lt ?_⟩
  have hne : (asInt32 part.size).toNat ≠ 0 := fun hzero => by
    rw [blockCount, hzero, Nat.zero_div] at hblocks
    exact Nat.lt_irrefl 0 hblocks
  omega

theorem size_of_takers (h : takers part block (Blocks.padded part.eraseSize 0 data) = some ps)
    (hdata : data ≠ []) : data.length ≤ part.size ∧ part.eraseSize ≤ part.size ∧ part.size < 2 ^ 31 := by
  have hle := Picks.length_le_of_picks h
  rw [Blocks.padded_length part.eraseSize_pos] at hle
  exact size_of_count hle hdata

/-- The width does not matter for reading a string that is taken. -/
theorem readData_of_takers (h : takers part block (Blocks.padded part.eraseSize 0 data) = some ps) (w : LongWidth)
    {σ : Type} (dev : Driver σ) (ctx : ReadContext σ) :
    Widths.readData w dev part data.length ctx = readData dev part data.length ctx := by
  by_cases hdata : data = []
  · rw [hdata]
    rfl
  · obtain ⟨-, herase, hsize⟩ := size_of_takers h hdata
    exact Widths.readData_eq (w.cast_of_lt (Nat.lt_of_le_of_lt herase hsize)) _ _

/-- What the calls on a fresh context and its close make of a medium, where the string is taken,
or the end of the partition is noticed. -/
theorem writeAll_widths_medium (w : LongWidth) (med : Medium) (part : MtdPartition) (calls : List Bytes) (c : Content)
    (h : (takers part med.block (Blocks.padded part.eraseSize 0 calls.flatten)).isSome ∨ Widths.EndsInside w part) :
    let r := Widths.writeAll w (med.writeDriver part) part calls ⟨c, fun _ => 0⟩
    let bs := Blocks.padded part.eraseSize 0 calls.flatten
    match takers part med.block bs with
    | some ps => (part.size < 2 ^ 31 → r.1 = calls.map (fun data => (data.length : Int)) ++ [0]) ∧
      Stored med part ps bs c r.2.writer.fd.state.content ∧ TouchesTried med part r.2.writer.fd.journal
    | none => -1 ∈ r.1 := by
  have hpos := part.eraseSize_pos
  refine writeAllBy_medium med part calls c ?_
  by_cases hends : Widths.EndsInside w part
  · exact Widths.writeBlocks_eq hends (Nat.dvd_zero _) (Nat.zero_le _)
  obtain ⟨ps, htakers⟩ := Option.isSome_iff_exists.mp (h.resolve_right hends)
  by_cases hnil : calls.flatten = []
  · rw [hnil, Blocks.padded, Blocks.whole_of_lt hpos, Blocks.rest_of_lt hpos]
    rfl
  have hsize := (size_of_takers htakers hnil).2.2
  have hblocks := writeBlocks_fresh med part
    (fun b (hb : b ∈ Blocks.padded part.eraseSize 0 calls.flatten) => Blocks.length_of_mem_padded hpos hb) c
  rw [htakers] at hblocks
  obtain ⟨writer, hwriter, -⟩ := hblocks
  rw [hwriter, Widths.writeBlocks_of_success hsize hwriter]

end

/-- A string that fits into the good blocks of the partition is written and read back, however it
is split into calls; and one that does not is refused. What the bad blocks do, what was and is left
on the medium, and what is reported behind the partition does not matter. -/
def WriteReadLaw (w : LongWidth) (part : MtdPartition) (bad : Nat → Bool) (calls : List Bytes) : Prop :=
  ∀ (reported : Nat → Bool) (worn : Nat → Block) (left c : Content) (failed : Nat),
    (∀ i < part.size / part.eraseSize, reported i = bad i) →
    let med := Medium.withBad reported worn left
    let r := Widths.writeAll w (med.writeDriver part) part calls ⟨c, fun _ => 0⟩
    let c' := r.2.writer.fd.state.content
    (Blocks.count part.eraseSize calls.flatten.length ≤ (goodBlocks part bad).length →
      Written part reported calls c r.1 r.2.writer.fd.journal c' ∧
        ∀ lens : List Nat, lens.sum = calls.flatten.length → ReadsBack calls.flatten lens
          (Widths.readCalls w (med.readDriver part) part lens (readPartition part ⟨c', failed⟩)).1) ∧
      ((goodBlocks part bad).length < Blocks.count part.eraseSize calls.flatten.length → -1 ∈ r.1)

section
variable {w : LongWidth} {part : MtdPartition} {bad : Nat → Bool} {worn : Nat → Block} {left c : Content}
  {calls : List Bytes}

/-- The blocks of a string that is stored in the good blocks. -/
theorem written_of_stored {rets : List Int} {journal : List Event} {c' : Content}
    (hrets : rets = calls.map (fun data => (data.length : Int)) ++ [0])
    (hstored : Stored (Medium.withBad bad worn left) part
      ((goodBlocks part bad).take (Blocks.count part.eraseSize calls.flatten.length))
      (Blocks.padded part.eraseSize 0 calls.flatten) c c')
    (htouches : TouchesTried (Medium.withBad bad worn left) part journal) :
    Written part bad calls c rets journal c' where
  rets_eq := hrets
  holds j g hj hg i hi := by
    have hpos := part.eraseSize_pos
    have hlen : j < (Blocks.padded part.eraseSize 0 calls.flatten).length := by
      rw [Blocks.padded_length hpos]
      exact hj
    have hblock := hstored.block ((List.getElem?_take_of_lt hj).trans hg) hlen
    rw [← Blocks.getD_padded hpos 0 calls.flatten hlen hi, ← hblock, Content.getD_read hi]
  untouched e he pos length ht j hge hlt := by
    obtain ⟨rfl, n, rfl, htried⟩ := htouches e he pos length ht
    rw [withBad_tried] at htried
    rw [(div_eraseSize_eq_iff part).mpr ⟨hge, hlt⟩]
    simpa using htried
  unchanged j hbad := by
    have hnot : j / part.eraseSize ∉
        (goodBlocks part bad).take (Blocks.count part.eraseSize calls.flatten.length) := by
      intro hmem
      have hgood := (List.mem_filter.mp (List.mem_of_mem_take hmem)).2
      simp [hbad] at hgood
    rcases hstored.others j hnot with hsame | htried
    · exact hsame
    · rw [withBad_tried, hbad] at htried
      exact absurd htried.1 (by decide)

/-- Calls that ask for no byte get none. -/
theorem readCallsBy_nothing {σ : Type} (readBlock : Fd σ → Option Bytes × Fd σ) (n : Nat) (ctx : ReadContext σ) :
    readCallsBy part readBlock (List.replicate n 0) ctx = (List.replicate n (some []), ctx) := by
  induction n with
  | zero => rfl
  | succ n ih =>
    have hnone : readDataBy part readBlock 0 ctx = (some [], ctx) := rfl
    rw [List.replicate_succ, readCallsBy, hnone]
    dsimp only
    rw [ih, List.replicate_succ]

/-- A string that is stored in the good blocks is read back. -/
theorem readsBack_of_stored (w : LongWidth) (hsize : part.size < 2 ^ 31) {c' : Content} (failed : Nat) {lens : List Nat}
    (hlens : lens.sum = calls.flatten.length)
    (henough : Blocks.count part.eraseSize calls.flatten.length ≤ (goodBlocks part bad).length)
    (hstored : Stored (Medium.withBad bad worn left) part
      ((goodBlocks part bad).take (Blocks.count part.eraseSize calls.flatten.length))
      (Blocks.padded part.eraseSize 0 calls.flatten) c c') :
    ReadsBack calls.flatten lens
      (Widths.readCalls w ((Medium.withBad bad worn left).readDriver part) part lens
        (readPartition part ⟨c', failed⟩)).1 := by
  have hpos := part.eraseSize_pos
  have hfits := (Blocks.count_le_iff hpos).mp henough
  have hcap := goodBlocks_length_le part bad
  by_cases hnil : calls.flatten = []
  · rw [hnil, List.length_nil] at hlens
    obtain ⟨n, rfl⟩ : ∃ n, lens = List.replicate n 0 :=
      ⟨lens.length, List.eq_replicate_of_mem fun len hlen => by
        have hle := List.le_sum_of_mem hlen
        omega⟩
    rw [Widths.readCalls, readCallsBy_nothing, hnil]
    exact ⟨List.replicate n [], by simp, by simp, by simp⟩
  have hsmall : ∀ len ∈ lens, len < 2 ^ 31 := fun len hlen => by
    have hle := List.le_sum_of_mem hlen
    omega
  have hread := readCalls_medium (Medium.withBad bad worn left) part c' failed hsmall
  have herase : part.eraseSize < 2 ^ 31 := by
    have hlen := List.length_pos_iff.mpr hnil
    have hsome : 0 < (goodBlocks part bad).length := Nat.pos_of_mul_pos_right (Nat.lt_of_lt_of_le hlen hfits)
    have hmul := Nat.mul_le_mul_right part.eraseSize hsome
    omega
  dsimp only at hread
  rw [Widths.readCalls_eq (w.cast_of_lt herase)]
  rw [withBad_deliverers hsize, hlens, if_pos henough, hstored.holds] at hread
  obtain ⟨pieces, hresults, hlengths, hflatten⟩ := hread
  obtain ⟨zeros, -, hpadded⟩ := Blocks.flatten_padded hpos 0 calls.flatten
  refine ⟨pieces, hresults, hlengths, ?_⟩
  rw [hflatten, hpadded, List.take_left]

end

theorem writeReadLaw_of_noticed (w : LongWidth) (part : MtdPartition) (hsize : part.size < 2 ^ 31) (bad : Nat → Bool)
    (calls : List Bytes)
    (h : Blocks.count part.eraseSize calls.flatten.length ≤ (goodBlocks part bad).length ∨ Widths.EndsInside w part) :
    WriteReadLaw w part bad calls := by
  intro reported worn left c failed hreported med r c'
  have hpos := part.eraseSize_pos
  rw [← goodBlocks_congr hreported] at h ⊢
  have htakers : takers part med.block (Blocks.padded part.eraseSize 0 calls.flatten) =
      if Blocks.count part.eraseSize calls.flatten.length ≤ (goodBlocks part reported).length then
        some ((goodBlocks part reported).take (Blocks.count part.eraseSize calls.flatten.length))
      else none := by
    rw [withBad_takers hsize, Blocks.padded_length hpos]
  have hwrite := writeAll_widths_medium w med part calls c (h.imp_left fun henough => by
    rw [htakers, if_pos henough]
    rfl)
  dsimp only at hwrite
  rw [htakers] at hwrite
  constructor
  · intro henough
    rw [if_pos henough] at hwrite
    obtain ⟨hrets, hstored, htouches⟩ := hwrite
    exact ⟨written_of_stored (hrets hsize) hstored htouches, fun lens hlens =>
      readsBack_of_stored w hsize failed hlens henough hstored⟩
  · intro hfew
    rw [if_neg (by omega)] at hwrite
    exact hwrite

/-! ## Leaving the partition -/

section
open Widths
variable {part : MtdPartition}

theorem endsInside_bits64 (h : part.size + part.eraseSize < 2 ^ 32) : EndsInside .bits64 part := by
  refine Int.le_trans (Int.ofNat_le.mpr (?_ : _ ≤ 2 ^ 32)) (by decide)
  have hdiv := Nat.div_mul_le_self part.size part.eraseSize
  rw [Nat.succ_mul]
  omega

/-- Where `off_t` does not hold the end of the first block behind the partition, `pos` moves on
up to 4 GiB. -/
theorem positions_steps (hsize : part.size < 2 ^ 31) (hends : ¬ EndsInside .bits32 part) {m : Nat}
    (hm : m * part.eraseSize < 2 ^ 32) : (positions .bits32 part).Steps part m := by
  intro n hn
  have hsum : n * part.eraseSize + part.eraseSize = (n + 1) * part.eraseSize := (Nat.succ_mul _ _).symm
  have hle : (n + 1) * part.eraseSize ≤ m * part.eraseSize := Nat.mul_le_mul_right _ hn
  constructor
  · rw [positions_fits, asInt32_of_lt hsize, hsum]
    rcases Nat.lt_or_ge n (part.size / part.eraseSize) with hin | hout
    · have hend : (n + 1) * part.eraseSize ≤ part.size := (Nat.le_div_iff_mul_le part.eraseSize_pos).mp hin
      rw [LongWidth.cast_of_lt .bits32 (Nat.lt_of_le_of_lt hend hsize)]
      exact Int.ofNat_le.mpr hend
    · have hend : (part.size / part.eraseSize + 1) * part.eraseSize ≤ (n + 1) * part.eraseSize :=
        Nat.mul_le_mul_right _ (Nat.succ_le_succ hout)
      rw [EndsInside, LongWidth.longMax] at hends
      simp only [LongWidth.cast, asInt32]
      split <;> omega
  · have hnext : (positions .bits32 part).next (n * part.eraseSize) = n * part.eraseSize + part.eraseSize :=
      LongWidth.toSize_of_lt .bits32 (by omega)
    rw [hnext, hsum]

/-- A turn for each of these blocks is enough fuel. -/
theorem le_of_not_endsInside (hends : ¬ EndsInside .bits32 part) (herase : 1 < part.eraseSize) {m : Nat}
    (hm : m * part.eraseSize < 2 ^ 32) : m ≤ part.size + 1 := by
  rw [EndsInside, LongWidth.longMax] at hends
  have hdiv := Nat.div_mul_le_self part.size part.eraseSize
  have hend : (part.size / part.eraseSize + 1) * part.eraseSize ≤ part.size + part.eraseSize := by
    rw [Nat.succ_mul]
    omega
  by_contra hlt
  have hmul := Nat.mul_le_mul_right part.eraseSize (show part.size + 2 ≤ m by omega)
  have hsize := Nat.mul_le_mul_left part.size (show 2 ≤ part.eraseSize from herase)
  rw [Nat.add_mul] at hmul
  omega

/-- Healthy blocks behind the partition take what its own blocks do not. -/
theorem exists_takersBelow {block : Nat → Block} (hbehind : ∀ i, part.size / part.eraseSize ≤ i → block i = Block.healthy)
    (data : Bytes) :
    ∃ ps, takersBelow (part.size / part.eraseSize + Blocks.count part.eraseSize data.length) block
      (Blocks.padded part.eraseSize 0 data) = some ps := by
  refine Picks.exists_picks (k := part.size / part.eraseSize) (fun b _ i hi _ => ?_) ?_
  · rw [hbehind i hi, healthy_takes]
  · rw [Blocks.padded_length part.eraseSize_pos, Nat.zero_max]

/-- Where the blocks before 4 GiB take a string, it is written, in the partition or behind it. -/
theorem writeAll_leaves (hsize : part.size < 2 ^ 31) (hends : ¬ EndsInside .bits32 part) (herase : 1 < part.eraseSize)
    {calls : List Bytes} (hlen : part.size + part.eraseSize + calls.flatten.length < 2 ^ 32) (med : Medium) {ps : List Nat}
    (htakers : takersBelow (part.size / part.eraseSize + Blocks.count part.eraseSize calls.flatten.length) med.block
      (Blocks.padded part.eraseSize 0 calls.flatten) = some ps) (c : Content) :
    let r := Widths.writeAll .bits32 (med.writeDriver part) part calls ⟨c, fun _ => 0⟩
    r.1 = calls.map (fun data => (data.length : Int)) ++ [0] ∧
      Stored med part ps (Blocks.padded part.eraseSize 0 calls.flatten) c r.2.writer.fd.state.content := by
  have hpos := part.eraseSize_pos
  have hm : (part.size / part.eraseSize + Blocks.count part.eraseSize calls.flatten.length) * part.eraseSize < 2 ^ 32 := by
    have hblocks := Nat.div_mul_le_self part.size part.eraseSize
    have hcount : Blocks.count part.eraseSize calls.flatten.length * part.eraseSize ≤
        calls.flatten.length + part.eraseSize - 1 := Nat.div_mul_le_self _ _
    rw [Nat.add_mul]
    omega
  have hwritten := writeBlocksBy_fresh med part (positions_steps hsize hends hm) (le_of_not_endsInside hends herase hm)
    (fun b (hb : b ∈ Blocks.padded part.eraseSize 0 calls.flatten) => Blocks.length_of_mem_padded hpos hb) c
  rw [htakers] at hwritten
  obtain ⟨writer, hwriter, -, hstored, -⟩ := hwritten
  have hblocks : writeBlocks (Widths.writeBlock .bits32 (med.writeDriver part) part)
      (Blocks.padded part.eraseSize 0 calls.flatten) (writePartition ⟨c, fun _ => 0⟩).writer = some writer := hwriter
  have hall := writeAllBy_hands med part (Widths.writeBlock .bits32 (med.writeDriver part) part) calls ⟨c, fun _ => 0⟩
  dsimp only at hall
  rw [hblocks] at hall
  have hleft : blocksBehind part writer.fd.pos < 2 ^ 31 := by
    rw [blocksBehind, Nat.div_lt_iff_lt_mul hpos]
    have hmul := Nat.mul_le_mul_left (2 ^ 31) herase
    omega
  refine ⟨hall.2 hleft, ?_⟩
  rw [Widths.writeAll, hall.1]
  exact hstored

end

/-- The bad blocks of the partition, and none behind it. -/
def onlyInside (part : MtdPartition) (bad : Nat → Bool) (i : Nat) : Bool :=
  decide (i < part.size / part.eraseSize) && bad i

/-- The law holds of every string that fits into the good blocks, and of every other one where
`off_t` holds the end of the first block that is not in the partition. It holds of no other string
that makes less than 4 GiB with the partition and an erase block of more than one byte. -/
theorem write_read_law (w : LongWidth) (part : MtdPartition) (hsize : part.size < 2 ^ 31) (bad : Nat → Bool)
    (calls : List Bytes) :
    (Blocks.count part.eraseSize calls.flatten.length ≤ (goodBlocks part bad).length ∨ Widths.EndsInside w part →
      WriteReadLaw w part bad calls) ∧
    (1 < part.eraseSize → part.size + part.eraseSize + calls.flatten.length < 2 ^ 32 →
      WriteReadLaw w part bad calls →
      Blocks.count part.eraseSize calls.flatten.length ≤ (goodBlocks part bad).length ∨ Widths.EndsInside w part) := by
  refine ⟨writeReadLaw_of_noticed w part hsize bad calls, fun herase hlen hlaw => ?_⟩
  by_contra hnot
  obtain ⟨hfew, hends⟩ := not_or.mp hnot
  rw [Nat.not_le] at hfew
  cases w with
  | bits64 => exact hends (endsInside_bits64 (by omega))
  | bits32 =>
    have hinside : ∀ i < part.size / part.eraseSize, onlyInside part bad i = bad i := fun i hi => by simp [onlyInside, hi]
    let med := Medium.withBad (onlyInside part bad) (fun _ => Block.healthy) fun _ => 255
    have hbehind : ∀ i, part.size / part.eraseSize ≤ i → med.block i = Block.healthy := fun i hi => by
      simp [med, Medium.withBad, onlyInside, Nat.not_lt.mpr hi]
    obtain ⟨ps, htakers⟩ := exists_takersBelow hbehind calls.flatten
    have hwritten := (writeAll_leaves hsize hends herase hlen med htakers fun _ => 0).1
    have hfails := (hlaw _ (fun _ => Block.healthy) (fun _ => 255) (fun _ => 0) 0 hinside).2 hfew
    rw [hwritten] at hfails
    simp at hfails

/-- Three bytes over a bad block in the middle. -/
theorem write_read_law_three_bytes :
    WriteReadLaw .bits32 ⟨6, 2, by decide, by decide⟩ (· == 1) [[1], [2, 3]] :=
  (write_read_law .bits32 ⟨6, 2, by decide, by decide⟩ (by decide) (· == 1) [[1], [2, 3]]).1 (.inl (by decide))

section
open Widths

/-- A medium of which only the first block is good. -/
def Medium.onlyFirst : Medium := .withBad (fun i => i != 0) (fun _ => Block.healthy) fun _ => 255

theorem onlyFirst_zero : Medium.onlyFirst.block 0 = Block.healthy := rfl

theorem onlyFirst_bad {i : Nat} (hi : 0 < i) : (Medium.onlyFirst.block i).badBlock = .bad := by
  simp [Medium.onlyFirst, Medium.withBad, Nat.ne_of_gt hi]

theorem goodBlocks_onlyFirst (part : MtdPartition) : (goodBlocks part fun i => i != 0).length ≤ 1 := by
  have hsorted : (goodBlocks part fun i => i != 0).Pairwise (· < ·) := List.Pairwise.filter _ List.pairwise_lt_range
  have hzero : ∀ g ∈ goodBlocks part fun i => i != 0, g = 0 := fun g hg => by
    simpa using (List.mem_filter.mp hg).2
  generalize goodBlocks part (fun i => i != 0) = l at hsorted hzero
  match l with
  | [] => exact Nat.zero_le 1
  | [_] => exact Nat.le_refl 1
  | g :: g' :: _ =>
    have hlt := (List.pairwise_cons.mp hsorted).1 g' List.mem_cons_self
    have hg' := hzero g' (by simp)
    omega

/-- The first block takes a block. -/
theorem writeBlockFromBy_onlyFirst (fuel : Nat) (w : BlockWriter Wear) :
    ∃ w', writeBlockFromBy (Medium.onlyFirst.writeDriver nearlyTwoGiB) nearlyTwoGiB (positions .bits32 nearlyTwoGiB)
        (zeroBlock nearlyTwoGiB) (fuel + 1) 0 w = (0, w') ∧ w'.fd.pos = 2 ^ 17 := by
  obtain ⟨w', heq, hpos, -⟩ :=
    writeBlockFromBy_healthy onlyFirst_zero (zeroBlock_length nearlyTwoGiB) (fits_nearlyTwoGiB 0) fuel w
  rw [Nat.zero_mul] at heq
  exact ⟨w', heq, hpos⟩

/-- Both blocks of a string go to the first block. -/
theorem writeBlock_onlyFirst {writer : BlockWriter Wear} (hpos : writer.fd.pos = 0 ∨ writer.fd.pos = 2 ^ 17) :
    ∃ w', Widths.writeBlock .bits32 (Medium.onlyFirst.writeDriver nearlyTwoGiB) nearlyTwoGiB (zeroBlock nearlyTwoGiB)
        writer = (0, w') ∧ w'.fd.pos = 2 ^ 17 := by
  rcases hpos with hstart | hbehind
  · have htell : writer.fd.tell (Medium.onlyFirst.writeDriver nearlyTwoGiB) = (true, writer.fd) := rfl
    rw [Widths.writeBlock, writeBlockBy, htell]
    dsimp only
    rw [if_neg (by decide), hstart]
    exact writeBlockFromBy_onlyFirst _ _
  · have hbad : ∀ i, 0 < i → (Medium.onlyFirst.block (i * 2 ^ 17 / nearlyTwoGiB.eraseSize)).badBlock = .bad := by
      intro i hi
      have hdiv : i * 2 ^ 17 / nearlyTwoGiB.eraseSize = i := mul_div_eraseSize nearlyTwoGiB i
      rw [hdiv]
      exact onlyFirst_bad hi
    have hreports : ∀ pos s, (Medium.onlyFirst.writeDriver nearlyTwoGiB).getBadBlock pos s =
        ((Medium.onlyFirst.block (pos / nearlyTwoGiB.eraseSize)).badBlock, s) := fun _ _ => rfl
    obtain ⟨fuel, w, -, heq, -⟩ :=
      writeBlock_comes_round hreports (fun _ => rfl) hbad (zeroBlock nearlyTwoGiB) hbehind
    rw [heq]
    exact writeBlockFromBy_onlyFirst fuel w

/-- Two calls for a block each, and the close. -/
theorem writeAllBy_two {med : Medium} {part : MtdPartition}
    {writeBlock : Bytes → BlockWriter Wear → Int × BlockWriter Wear} {data : Bytes}
    (hdata : data.length = part.eraseSize) {state : Wear} {w w' : BlockWriter Wear}
    (hfirst : writeBlock data (writePartition state).writer = (0, w)) (hsecond : writeBlock data w = (0, w'))
    (hleft : blocksBehind part w'.fd.pos < 2 ^ 31) :
    (writeAllBy (med.writeDriver part) part writeBlock [data, data] state).1 =
      [(part.eraseSize : Int), part.eraseSize, 0] := by
  have hall := writeAllBy_hands med part writeBlock [data, data] state
  dsimp only at hall
  rw [List.flatten_cons, List.flatten_singleton, Blocks.padded_two part.eraseSize_pos 0 hdata hdata,
    writeBlocks_cons (congrArg Prod.fst hfirst), hfirst, writeBlocks_cons (congrArg Prod.fst hsecond), hsecond,
    writeBlocks_nil] at hall
  rw [hall.2 hleft, List.map_cons, List.map_cons, List.map_nil, hdata]
  rfl

/-- Two blocks are written where one is good, and every call succeeds. -/
theorem string_over_itself :
    (Widths.writeAll .bits32 (Medium.onlyFirst.writeDriver nearlyTwoGiB) nearlyTwoGiB
      [zeroBlock nearlyTwoGiB, zeroBlock nearlyTwoGiB] ⟨fun _ => 0, fun _ => 0⟩).1 = [2 ^ 17, 2 ^ 17, 0] ∧
    ¬ WriteReadLaw .bits32 nearlyTwoGiB (fun i => i != 0) [zeroBlock nearlyTwoGiB, zeroBlock nearlyTwoGiB] := by
  have hlen := zeroBlock_length nearlyTwoGiB
  have hrets : (Widths.writeAll .bits32 (Medium.onlyFirst.writeDriver nearlyTwoGiB) nearlyTwoGiB
      [zeroBlock nearlyTwoGiB, zeroBlock nearlyTwoGiB] ⟨fun _ => 0, fun _ => 0⟩).1 = [2 ^ 17, 2 ^ 17, 0] := by
    have hopened : (writePartition (⟨fun _ => 0, fun _ => 0⟩ : Wear)).writer.fd.pos = 0 := rfl
    obtain ⟨w, hfirst, hpos⟩ := writeBlock_onlyFirst (.inl hopened)
    obtain ⟨w', hsecond, hpos'⟩ := writeBlock_onlyFirst (.inr hpos)
    rw [Widths.writeAll]
    exact writeAllBy_two hlen hfirst hsecond (blocksBehind_lt (Nat.le_of_eq hpos' |>.trans (by decide)) (by decide))
  refine ⟨hrets, fun hlaw => ?_⟩
  have hcount : 1 < Blocks.count nearlyTwoGiB.eraseSize
      [zeroBlock nearlyTwoGiB, zeroBlock nearlyTwoGiB].flatten.length := by
    have hflat : [zeroBlock nearlyTwoGiB, zeroBlock nearlyTwoGiB].flatten.length =
        nearlyTwoGiB.eraseSize + nearlyTwoGiB.eraseSize := by
      rw [List.flatten_cons, List.flatten_singleton, List.length_append, hlen]
    rw [← Nat.not_le, Blocks.count_le_iff nearlyTwoGiB.eraseSize_pos, hflat]
    have hpos := nearlyTwoGiB.eraseSize_pos
    omega
  have hfails := (hlaw (fun i => i != 0) (fun _ => Block.healthy) (fun _ => 255) (fun _ => 0) 0 fun _ _ => rfl).2
    (Nat.lt_of_le_of_lt (goodBlocks_onlyFirst _) hcount)
  have hmem : (-1 : Int) ∈ [2 ^ 17, 2 ^ 17, 0] := hrets ▸ hfails
  simp at hmem

end

end LinuxOta.Mtd
