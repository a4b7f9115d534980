-- SUMMARY: When a read of a string written over failing blocks delivers it: when reader and writer skip the same blocks.
import LinuxOta.Flash.MtdLaw

namespace LinuxOta.Mtd

/-! # Program failures -/

/-- A read that succeeds, after a write of a string has succeeded on a medium with these blocks in
the partition, delivers the string, whatever was on the medium before, whatever an erase leaves,
and whatever the blocks behind the partition do. -/
def ReadsWritten (w : LongWidth) (part : MtdPartition) (block : Nat → Block) (calls : List Bytes) : Prop :=
  ∀ (actual : Nat → Block) (left c : Content) (failed : Nat),
    (∀ i < part.size / part.eraseSize, actual i = block i) →
    let med : Medium := ⟨actual, left⟩
    let r := Widths.writeAll w (med.writeDriver part) part calls ⟨c, fun _ => 0⟩
    r.1 = calls.map (fun data => (data.length : Int)) ++ [0] →
      ∀ data, (Widths.readData w (med.readDriver part) part calls.flatten.length
        (readPartition part ⟨r.2.writer.fd.state.content, failed⟩)).1 = some data → data = calls.flatten

/-- If there are enough blocks for writing the string and for reading it, these are the
same. -/
def SkipsAgree (part : MtdPartition) (block : Nat → Block) (data : Bytes) : Prop :=
  ∀ ps, takers part block (Blocks.padded part.eraseSize 0 data) = some ps →
    Blocks.count part.eraseSize data.length ≤ (deliverers part block).length →
      ps = (deliverers part block).take (Blocks.count part.eraseSize data.length)

/-- There are enough blocks for writing the string; or `off_t` holds the end of the first block that
is not in the partition; or there are too few blocks for reading it, and `int` holds its length, and
`ssize_t` that of a block. -/
def StaysInside (w : LongWidth) (part : MtdPartition) (block : Nat → Block) (data : Bytes) : Prop :=
  (takers part block (Blocks.padded part.eraseSize 0 data)).isSome ∨ Widths.EndsInside w part ∨
    (deliverers part block).length < Blocks.count part.eraseSize data.length ∧ data.length < 2 ^ 31 ∧
      part.eraseSize < 2 ^ 31

variable {w : LongWidth} {part : MtdPartition} {block actual : Nat → Block} {data : Bytes} {ps : List Nat}
  {calls : List Bytes}

section
variable (h : ∀ i < part.size / part.eraseSize, actual i = block i)

include h in
theorem eq_of_lt_blockCount {i : Nat} (hi : i < blockCount part) : actual i = block i := by
  have hsize := asInt32_le part.size
  exact h i (Nat.lt_of_lt_of_le hi (Nat.div_le_div_right (by omega)))

include h in
theorem takers_congr (bs : List Bytes) : takers part actual bs = takers part block bs :=
  Picks.picks_congr fun _ _ _ hi => by rw [eq_of_lt_blockCount h hi]

include h in
theorem deliverers_congr : deliverers part actual = deliverers part block :=
  Picks.all_congr fun _ hi => by rw [eq_of_lt_blockCount h hi]

include h in
theorem ReadsWritten.congr (hreads : ReadsWritten w part block calls) : ReadsWritten w part actual calls :=
  fun actual' left c failed h' => hreads actual' left c failed fun i hi => (h' i hi).trans (h i hi)

end

theorem deliverers_length_le (part : MtdPartition) (block : Nat → Block) :
    (deliverers part block).length ≤ blockCount part :=
  (List.length_filter_le _ _).trans (Nat.le_of_eq List.length_range')

theorem length_lt_of_takers
    (h : takers part block (Blocks.padded part.eraseSize 0 data) = some ps) :
    data.length < 2 ^ 31 := by
  by_cases hdata : data = []
  · rw [hdata]
    decide
  · obtain ⟨hle, -, hsize⟩ := size_of_takers h hdata
    omega

/-- Where the blocks agree, what is read is what was written. -/
theorem readsWritten_of_skipsAgree (h : SkipsAgree part block calls.flatten)
    (hstays : StaysInside w part block calls.flatten) : ReadsWritten w part block calls := by
  intro actual left c failed hactual med r hrets data hread
  have hpos := part.eraseSize_pos
  rw [SkipsAgree, ← takers_congr hactual, ← deliverers_congr hactual] at h
  rw [StaysInside, ← takers_congr hactual, ← deliverers_congr hactual, ← or_assoc] at hstays
  rcases hstays with hends | ⟨hfew, hlen, herase⟩
  swap
  · -- the string is not read
    rw [Widths.readData_eq (w.cast_of_lt herase), readData_medium med part _ failed hlen,
      if_neg (Nat.not_le.mpr hfew)] at hread
    cases hread
  have hwrite := writeAll_widths_medium w med part calls c hends
  dsimp only at hwrite
  cases htakers : takers part actual (Blocks.padded part.eraseSize 0 calls.flatten) with
  | none =>
    -- a call would have failed
    rw [show takers part med.block _ = none from htakers] at hwrite
    have hmem : (-1 : Int) ∈ calls.map (fun data => (data.length : Int)) ++ [0] := hrets ▸ hwrite
    simp at hmem
  | some ps =>
    rw [show takers part med.block _ = some ps from htakers] at hwrite
    rw [readData_of_takers htakers, readData_medium med part _ failed (length_lt_of_takers htakers)] at hread
    by_cases hk : Blocks.count part.eraseSize calls.flatten.length ≤ (deliverers part actual).length
    · rw [if_pos hk, ← h ps htakers hk, hwrite.2.1.holds] at hread
      obtain ⟨zeros, -, hpadded⟩ := Blocks.flatten_padded hpos 0 calls.flatten
      rw [hpadded, List.take_left] at hread
      exact (Option.some.inj hread).symm
    · rw [if_neg hk] at hread
      cases hread

/-- A byte other than `b`. -/
def otherByte (b : UInt8) : UInt8 := if b = 0 then 1 else 0

theorem otherByte_ne (b : UInt8) : otherByte b ≠ b := by
  rw [otherByte]
  split
  · rename_i h
    rw [h]
    decide
  · rename_i h
    exact fun heq => h heq.symm

/-- What a read of blocks delivers first of block number `j`. -/
theorem getElem?_flatten_blocks (part : MtdPartition) (c : Content) (is : List Nat) (j : Nat) :
    (is.map fun i => c.read (i * part.eraseSize) part.eraseSize).flatten[j * part.eraseSize]? =
      is[j]?.map fun i => c (i * part.eraseSize) := by
  have hpos := part.eraseSize_pos
  have hlens : ∀ b ∈ is.map fun i => c.read (i * part.eraseSize) part.eraseSize, b.length =
      part.eraseSize := by
    intro b hb
    obtain ⟨i, -, rfl⟩ := List.mem_map.mp hb
    exact Content.read_length _ _ _
  have hfirst : ∀ i, (c.read (i * part.eraseSize) part.eraseSize)[0]? =
      some (c (i * part.eraseSize)) := by
    intro i
    rw [Content.read, List.getElem?_map, List.getElem?_range hpos, Option.map_some, Nat.add_zero]
  have hflatten := Blocks.getElem?_flatten hlens hpos (j := j)
  rw [Nat.add_zero] at hflatten
  rw [hflatten, List.getElem?_map]
  cases is[j]? with
  | none => rfl
  | some i => exact hfirst i

/-- A string that is stored at the numbers `ps` is read from there: a block that is read and was
not written shows what was on the medium. -/
theorem eq_deliverers_of_stored (hps : ps.Pairwise (· < ·))
    (hlen : ps.length = Blocks.count part.eraseSize calls.flatten.length)
    (hk : Blocks.count part.eraseSize calls.flatten.length ≤ (deliverers part block).length)
    (hstored : ∀ x : Content,
      let r := Widths.writeAll w ((⟨block, x⟩ : Medium).writeDriver part) part calls ⟨x, fun _ => 0⟩
      r.1 = calls.map (fun data => (data.length : Int)) ++ [0] ∧
        Stored ⟨block, x⟩ part ps (Blocks.padded part.eraseSize 0 calls.flatten) x r.2.writer.fd.state.content)
    (h : ReadsWritten w part block calls) :
    ps = (deliverers part block).take (Blocks.count part.eraseSize calls.flatten.length) := by
  have hpos := part.eraseSize_pos
  have hdeliverers : ((deliverers part block).take (Blocks.count part.eraseSize calls.flatten.length)).Pairwise
      (· < ·) := (Picks.all_pairwise).take
  have hlength : ps.length =
      ((deliverers part block).take (Blocks.count part.eraseSize calls.flatten.length)).length := by
    rw [hlen, List.length_take, Nat.min_eq_left hk]
  refine Picks.eq_of_subset hps hdeliverers hlength fun d hd => Classical.byContradiction fun hnot => ?_
  obtain ⟨j, hj, hget⟩ := List.getElem_of_mem hd
  have hjk : j < Blocks.count part.eraseSize calls.flatten.length := by
    rw [List.length_take, Nat.min_eq_left hk] at hj
    exact hj
  have hjlen := Blocks.lt_of_lt_count hpos hjk
  have hdata : calls.flatten ≠ [] := fun hnil => by
    rw [hnil] at hjlen
    exact Nat.not_lt_zero _ hjlen
  obtain ⟨hsmall, herase, hsize⟩ := size_of_count (hk.trans (deliverers_length_le part block)) hdata
  -- the medium shows a byte that is not the one of the string there
  let x : Content := fun _ => otherByte (calls.flatten[j * part.eraseSize])
  obtain ⟨hrets, hothers⟩ := hstored x
  have hread := h block x x 0 (fun _ _ => rfl) hrets _ ((congrArg Prod.fst
    (Widths.readData_eq (w.cast_of_lt (Nat.lt_of_le_of_lt herase hsize)) _ _)).trans
    ((readData_medium ⟨block, x⟩ part _ 0 (Nat.lt_of_le_of_lt hsmall hsize)).trans (if_pos hk)))
  have hshown : (Widths.writeAll w ((⟨block, x⟩ : Medium).writeDriver part) part calls ⟨x, fun _ => 0⟩).2.writer.fd.state.content
      (d * part.eraseSize) = otherByte (calls.flatten[j * part.eraseSize]) := by
    have hnot' : d * part.eraseSize / part.eraseSize ∉ ps := by
      rw [mul_div_eraseSize]
      exact hnot
    rcases hothers.others _ hnot' with hsame | hleft
    · exact hsame
    · exact hleft.2
  have hbyte := congrArg (fun data => data[j * part.eraseSize]?) hread
  dsimp only at hbyte
  rw [List.getElem?_take_of_lt hjlen, List.getElem?_eq_getElem hjlen, getElem?_flatten_blocks,
    List.getElem?_eq_getElem hj, hget, Option.map_some, Option.some_inj, hshown] at hbyte
  exact otherByte_ne _ hbyte

theorem skipsAgree_of_readsWritten (h : ReadsWritten w part block calls) : SkipsAgree part block calls.flatten := by
  intro ps htakers hk
  by_cases hdata : calls.flatten = []
  · rw [hdata] at htakers ⊢
    rw [List.length_nil, Blocks.count_zero part.eraseSize_pos, List.take_zero]
    exact List.eq_nil_of_length_eq_zero ((takers_length htakers).trans (Blocks.count_zero part.eraseSize_pos))
  refine eq_deliverers_of_stored (Picks.picks_pairwise htakers).2 (takers_length htakers) hk (fun x => ?_) h
  have hwrite := writeAll_widths_medium w ⟨block, x⟩ part calls x (.inl (Option.isSome_iff_exists.mpr ⟨ps, htakers⟩))
  dsimp only at hwrite
  rw [htakers] at hwrite
  obtain ⟨hrets, hstored, -⟩ := hwrite
  exact ⟨hrets (size_of_takers htakers hdata).2.2, hstored⟩

/-- A string whose last blocks went behind the partition is not read back. -/
theorem staysInside_of_readsWritten (hone : 1 < part.eraseSize) (herase : part.eraseSize < 2 ^ 31)
    (hlen : part.size + part.eraseSize + calls.flatten.length < 2 ^ 32) (h : ReadsWritten w part block calls) :
    StaysInside w part block calls.flatten := by
  have hpos := part.eraseSize_pos
  by_contra hnot
  obtain ⟨htakers, hends, hreads⟩ : ¬ (takers part block (Blocks.padded part.eraseSize 0 calls.flatten)).isSome ∧
      ¬ Widths.EndsInside w part ∧
      ((deliverers part block).length < Blocks.count part.eraseSize calls.flatten.length →
        2 ^ 31 ≤ calls.flatten.length) := by
    rw [StaysInside, not_or, not_or] at hnot
    exact ⟨hnot.1, hnot.2.1, fun hfew => Nat.le_of_not_lt fun hsmall => hnot.2.2 ⟨hfew, hsmall, herase⟩⟩
  cases w with
  | bits64 => exact hends (endsInside_bits64 (by omega))
  | bits32 =>
    let actual : Nat → Block := fun i => if i < part.size / part.eraseSize then block i else .healthy
    have hactual : ∀ i < part.size / part.eraseSize, actual i = block i := fun i hi => if_pos hi
    have hbehind : ∀ i, part.size / part.eraseSize ≤ i → actual i = Block.healthy := fun i hi => if_neg (Nat.not_lt.mpr hi)
    obtain ⟨ps, hps⟩ := exists_takersBelow hbehind calls.flatten
    rw [← takers_congr hactual] at htakers
    rw [← deliverers_congr hactual] at hreads
    have hwritten := fun (hsize : part.size < 2 ^ 31) (x : Content) => writeAll_leaves hsize hends hone hlen ⟨actual, x⟩ hps x
    by_cases hk : Blocks.count part.eraseSize calls.flatten.length ≤ (deliverers part actual).length
    · have hdata : calls.flatten ≠ [] := by
        intro hnil
        rw [hnil, Blocks.padded, Blocks.whole_of_lt hpos, Blocks.rest_of_lt hpos] at htakers
        exact htakers rfl
      have hsize := (size_of_count (hk.trans (deliverers_length_le part actual)) hdata).2.2
      have hlength : ps.length = Blocks.count part.eraseSize calls.flatten.length :=
        (Picks.picks_length hps).trans (Blocks.padded_length hpos 0 _)
      have heq := eq_deliverers_of_stored (Picks.picks_pairwise hps).2 hlength hk (hwritten hsize) (h.congr hactual)
      -- all of these blocks lie in the partition
      have hin : ∀ i ∈ ps, i < blockCount part := fun i hi => by
        rw [heq] at hi
        have hmem := List.mem_range'_1.mp (List.mem_filter.mp (List.mem_of_mem_take hi)).1
        omega
      have hsmall : blockCount part ≤ part.size / part.eraseSize +
          Blocks.count part.eraseSize calls.flatten.length := by
        rw [blockCount_of_lt hsize]
        exact Nat.le_add_right _ _
      have hinside : takers part actual (Blocks.padded part.eraseSize 0 calls.flatten) = some ps :=
        Picks.picks_below hps hsmall hin
      exact htakers (by rw [hinside]; rfl)
    · have hlong := hreads (Nat.lt_of_not_le hk)
      have hread := h actual (fun _ => 0) (fun _ => 0) 0 hactual (hwritten (by omega) fun _ => 0).1 []
        (Widths.readData_negative _ (asInt32_neg_iff.mpr (by omega)) _)
      rw [← hread] at hlong
      simp at hlong

/-- A read after a write that succeeded delivers the string if reader and writer skip the same
blocks and the writer does not leave the partition; and only then, where an erase block has more than
one byte and less than 2 GiB, and makes less than 4 GiB with the partition and the string. -/
theorem reads_written_iff (w : LongWidth) (part : MtdPartition) (block : Nat → Block) (calls : List Bytes) :
    (SkipsAgree part block calls.flatten ∧ StaysInside w part block calls.flatten →
      ReadsWritten w part block calls) ∧
    (1 < part.eraseSize → part.eraseSize < 2 ^ 31 → part.size + part.eraseSize + calls.flatten.length < 2 ^ 32 →
      ReadsWritten w part block calls →
      SkipsAgree part block calls.flatten ∧ StaysInside w part block calls.flatten) :=
  ⟨fun h => readsWritten_of_skipsAgree h.1 h.2, fun hone herase hlen h =>
    ⟨skipsAgree_of_readsWritten h, staysInside_of_readsWritten hone herase hlen h⟩⟩

/-- A block that is not bad and is read without failures, but cannot be programmed. -/
def Block.unprogrammable : Block where
  badBlock := .good
  attempt _ := ⟨true, .whole (), fun _ _ => 255, .whole ()⟩
  reading := .clean

/-- The second of two blocks is not needed. -/
theorem reads_written_iff_two_blocks :
    ReadsWritten .bits32 ⟨4, 2, by decide, by decide⟩ (fun i => if i = 1 then .unprogrammable else .healthy) [[1, 2]] :=
  (reads_written_iff .bits32 ⟨4, 2, by decide, by decide⟩ _ [[1, 2]]).1 ⟨fun ps hps _ =>
    (Option.some.inj (hps.symm.trans (by decide +kernel : _ = some [0]))).trans (by decide +kernel),
    .inr (.inl (by decide))⟩

/-- The first of two blocks is given up on: writing two bytes succeeds, and reading them
delivers what the erase has left in it. -/
theorem given_up_block_is_read :
    let med : Medium := ⟨fun i => if i = 0 then .unprogrammable else .healthy, fun _ => 255⟩
    let part : MtdPartition := ⟨4, 2, by decide, by decide⟩
    let r := Widths.writeAll .bits32 (med.writeDriver part) part [[1, 2]] ⟨fun _ => 255, fun _ => 0⟩
    r.1 = [2, 0] ∧ (Widths.readData .bits32 (med.readDriver part) part 2
      (readPartition part ⟨r.2.writer.fd.state.content, 0⟩)).1 = some [255, 255] := by
  decide +kernel

end LinuxOta.Mtd
