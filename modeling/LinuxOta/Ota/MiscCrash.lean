-- SUMMARY: Power that fails while misc on MTD is written: what is found of the A/B record and of the bootloader message.
import LinuxOta.Flash.MtdCrash
import LinuxOta.Ota.MiscUsers

namespace LinuxOta.Misc

open Mtd

/-! # Power failures in misc

All of the partition is written again for every record and every message. -/

/-- The message on a misc partition. -/
def messageAt (misc : Content) : BootloaderMessage :=
  .ofBytes (misc.read bootloaderMessageOffset 1088)

theorem messageAt_overwrite (misc : Content) (msg : BootloaderMessage) :
    messageAt (misc.overwrite bootloaderMessageOffset msg.toBytes) = msg := by
  rw [messageAt, ← msg.toBytes_length, Content.read_overwrite, BootloaderMessage.ofBytes_toBytes]

section
variable {part : MtdPartition} {worn : Nat → Block} {left c new : Content} {k : Nat}

variable (part) in
/-- The first `k` blocks are from the new content, the others from the old one. -/
def halfway (new c : Content) (k : Nat) : Content := fun j => if j / part.eraseSize < k then new j else c j

theorem padded_read (hmul : part.eraseSize ∣ part.size) (c : Content) :
    Blocks.padded part.eraseSize 0 (c.read 0 part.size) =
      (List.range (part.size / part.eraseSize)).map fun i => c.read (i * part.eraseSize) part.eraseSize := by
  have hpos := part.eraseSize_pos
  have hwhole := Nat.div_mul_cancel hmul
  have hlen : (Blocks.padded part.eraseSize 0 (c.read 0 part.size)).length = part.size / part.eraseSize := by
    rw [Blocks.padded_length hpos, Content.read_length, count_size hmul]
  refine List.ext_getElem (by simp [hlen]) fun n hn hn' => ?_
  have hblock := Blocks.length_of_mem_padded hpos (List.getElem_mem hn)
  rw [List.getElem_map, List.getElem_range]
  refine List.ext_getElem (by rw [hblock, Content.read_length]) fun i hi hi' => ?_
  have hin : i < part.eraseSize := by omega
  have hbyte := Blocks.getD_padded hpos 0 (c.read 0 part.size) hn hin
  have hlt : n * part.eraseSize + i < part.size := by
    have hle := Nat.mul_le_mul_right part.eraseSize (Nat.succ_le_of_lt (hlen ▸ hn))
    rw [hwhole, Nat.succ_mul] at hle
    omega
  rw [Content.getD_read hlt, Nat.zero_add] at hbyte
  rw [← List.getD_eq_getElem _ 0 hi, hbyte, ← List.getD_eq_getElem _ 0 hi', Content.getD_read hin]

theorem map_take_range_eq_iff {N : Nat} (hk : k ≤ N) {c d : Content} :
    ((List.range N).take k).map (fun i => c.read (i * part.eraseSize) part.eraseSize) =
        ((List.range N).map fun i => d.read (i * part.eraseSize) part.eraseSize).take k ↔
      ∀ j, j / part.eraseSize < k → c j = d j := by
  rw [List.map_take.symm, List.take_range, Nat.min_eq_left hk, List.map_inj_left]
  constructor
  · intro h j hj
    obtain ⟨hge, hlt⟩ := (div_eraseSize_eq_iff part).mp (Eq.refl (j / part.eraseSize))
    exact Content.read_eq_iff.mp (h _ (List.mem_range.mpr hj)) j hge hlt
  · intro h i hi
    refine read_congr fun j hj => h j ?_
    rw [hj]
    exact List.mem_range.mp hi

/-- The power fails while a new content is written to all of the partition: it is found up to
some block, and the old one behind that block. -/
theorem writeTotal_crash_iff (hsize : part.size < 2 ^ 31) (hmul : part.eraseSize ∣ part.size)
    (hne : 0 < part.size) (worn : Nat → Block) (left c new c' : Content) :
    Crash.States (Event.effect left) Event.Torn
        (writeAll ((Medium.withBad (fun _ => false) worn left).writeDriver part) part
          [new.read 0 part.size] ⟨c, fun _ => 0⟩).2.writer.fd.journal c c' ↔
      ∃ k < part.size / part.eraseSize, ∀ j, j / part.eraseSize ≠ k → c' j = halfway part new c k j := by
  have hpos := part.eraseSize_pos
  have hgood : goodBlocks part (fun _ => false) = List.range (part.size / part.eraseSize) :=
    goodBlocks_of_no_bad fun _ _ => rfl
  have hpadded := padded_read hmul new
  have hfits : (Blocks.padded part.eraseSize 0 [new.read 0 part.size].flatten).length ≤
      (goodBlocks part fun _ => false).length := by
    rw [Blocks.padded_length hpos, List.flatten_singleton, Content.read_length, count_size hmul, hgood,
      List.length_range]
  have hcrash := ((writeAll_states worn left hsize c [new.read 0 part.size] hfits).2 c').trans
    (limbo_goodBlocks_iff (fun b hb => Blocks.length_of_mem_padded hpos hb) hfits)
  obtain ⟨N, hN⟩ : ∃ N, N = part.size / part.eraseSize := ⟨_, rfl⟩
  have hNpos : 0 < N := by
    rw [hN]
    exact Nat.div_pos (Nat.le_of_dvd hne hmul) hpos
  rw [← hN] at hgood hpadded ⊢
  rw [List.flatten_singleton, hpadded, List.length_map, List.length_range, hgood,
    List.take_of_length_le (Nat.le_of_eq List.length_range)] at hcrash
  rw [hcrash]
  constructor
  · rintro ⟨k, hk, hholds, hframe⟩
    rw [map_take_range_eq_iff hk] at hholds
    have hbehind : ∀ j, k < j / part.eraseSize ∨ N ≤ j / part.eraseSize → c' j = c j := fun j hj =>
      hframe j fun hmem => by
        rw [List.take_range, List.mem_range] at hmem
        omega
    -- where all of it is stored, the last block is taken for the one that may hold anything
    have hlast : min k (N - 1) < N := by omega
    refine ⟨min k (N - 1), hlast, fun j hj => ?_⟩
    rw [halfway]
    split
    · exact hholds j (by omega)
    · exact hbehind j (by omega)
  · rintro ⟨k, hk, hothers⟩
    refine ⟨k, Nat.le_of_lt hk, (map_take_range_eq_iff (Nat.le_of_lt hk)).mpr fun j hj => ?_, fun j hj => ?_⟩
    · rw [hothers j (Nat.ne_of_lt hj), halfway, if_pos hj]
    · rw [List.take_range, List.mem_range] at hj
      rw [hothers j (by omega), halfway, if_neg (by omega)]

/-- `writeMisc_mtd` writes the new content to all of the partition. -/
theorem writeMiscMtd_eq_writeAll (worn : Nat → Block) (left c : Content) (hsize : part.size < 2 ^ 31)
    (hmul : part.eraseSize ∣ part.size) {buf : Bytes} {offset : Nat} (hfits : offset + buf.length ≤ part.size) :
    writeMiscMtd (mtdAccess (Medium.withBad (fun _ => false) worn left) part c) buf offset =
      (0, some (writeAll ((Medium.withBad (fun _ => false) worn left).writeDriver part) part
        [(c.overwrite offset buf).read 0 part.size] ⟨c, fun _ => 0⟩).2.writer.fd.state) := by
  have hgood : ∀ i < part.size / part.eraseSize, (fun _ => false) i = false := fun _ _ => rfl
  have hlen : ((c.overwrite offset buf).read 0 part.size).length = part.size :=
    Content.read_length _ _ _
  have hwrite := writeAll_medium (Medium.withBad (fun _ => false) worn left) part
    [(c.overwrite offset buf).read 0 part.size] c
  dsimp only at hwrite
  rw [withBad_takers hsize, Blocks.padded_length part.eraseSize_pos, List.flatten_singleton, hlen,
    if_pos ((count_le_goodBlocks_iff hmul).mpr hgood)] at hwrite
  have hrets := hwrite.1 hsize
  simp only [writeAll_singleton, List.map_singleton, List.cons_append, List.nil_append,
    List.cons.injEq, and_true, hlen] at hrets
  rw [writeMiscMtd, readTotal_withBad (fun _ => false) worn left c hsize hmul, if_pos hgood, writeBack]
  dsimp only
  rw [← Content.read_zero_overwrite hfits]
  simp only [mtdAccess, writeAll_singleton, hrets.1, hrets.2, hlen, ne_eq, not_true_eq_false, ↓reduceIte]

/-- The record lies in one block. -/
theorem record_block (hpage : 2048 ∣ part.eraseSize) {j : Nat} (hge : metaDataOffset ≤ j)
    (hlt : j < metaDataOffset + 32) : j / part.eraseSize = metaDataOffset / part.eraseSize := by
  obtain ⟨n, hn⟩ := hpage
  rw [metaDataOffset] at hge hlt ⊢
  rw [hn, ← Nat.div_div_eq_div_mul, ← Nat.div_div_eq_div_mul]
  congr 1
  omega

/-- And so does the message. -/
theorem message_block (hpage : 2048 ∣ part.eraseSize) {j : Nat} (hge : bootloaderMessageOffset ≤ j)
    (hlt : j < bootloaderMessageOffset + 1088) :
    j / part.eraseSize = bootloaderMessageOffset / part.eraseSize := by
  obtain ⟨n, hn⟩ := hpage
  rw [bootloaderMessageOffset] at hge hlt ⊢
  rw [hn, ← Nat.div_div_eq_div_mul, ← Nat.div_div_eq_div_mul]
  congr 1
  omega

theorem overwrite_record_outside (hpage : 2048 ∣ part.eraseSize) (d : AbData) {j : Nat}
    (hj : j / part.eraseSize ≠ metaDataOffset / part.eraseSize) :
    c.overwrite metaDataOffset d.toBytes j = c j := by
  rcases Nat.lt_or_ge j metaDataOffset with hbefore | hge
  · exact Content.overwrite_before hbefore
  rcases Nat.lt_or_ge j (metaDataOffset + 32) with hlt | hafter
  · exact absurd (record_block hpage hge hlt) hj
  · exact Content.overwrite_after (by rwa [d.toBytes_length])

theorem overwrite_message_outside (hpage : 2048 ∣ part.eraseSize) (msg : BootloaderMessage) {j : Nat}
    (hj : j / part.eraseSize ≠ bootloaderMessageOffset / part.eraseSize) :
    c.overwrite bootloaderMessageOffset msg.toBytes j = c j := by
  rcases Nat.lt_or_ge j bootloaderMessageOffset with hbefore | hge
  · exact Content.overwrite_before hbefore
  rcases Nat.lt_or_ge j (bootloaderMessageOffset + 1088) with hlt | hafter
  · exact absurd (message_block hpage hge hlt) hj
  · exact Content.overwrite_after (by rwa [msg.toBytes_length])

/-- The record is the new one where its block is stored. -/
theorem recordAt_halfway (hpage : 2048 ∣ part.eraseSize) (hk : metaDataOffset / part.eraseSize < k) :
    recordAt (halfway part new c k) = recordAt new := by
  rw [recordAt, recordAt]
  refine congrArg AbData.ofBytes (Content.read_congr fun j hge hlt => ?_)
  rw [halfway, record_block hpage hge hlt, if_pos hk]

/-- The message is the old one where its block is not. -/
theorem messageAt_halfway (hpage : 2048 ∣ part.eraseSize) (hk : k ≤ bootloaderMessageOffset / part.eraseSize) :
    messageAt (halfway part new c k) = messageAt c := by
  rw [messageAt, messageAt]
  refine congrArg BootloaderMessage.ofBytes (Content.read_congr fun j hge hlt => ?_)
  rw [halfway, message_block hpage hge hlt, if_neg (Nat.not_lt.mpr hk)]

/-- What is found of the record and of the message where one block may hold anything. -/
theorem found_iff (hpage : 2048 ∣ part.eraseSize) {N : Nat} (hN : bootloaderMessageOffset / part.eraseSize < N)
    (new c : Content) (d : AbData) (msg : BootloaderMessage) :
    (∃ c', (∃ k < N, ∀ j, j / part.eraseSize ≠ k → c' j = halfway part new c k j) ∧ recordAt c' = d ∧
        messageAt c' = msg) ↔
      metaDataOffset / part.eraseSize = bootloaderMessageOffset / part.eraseSize ∨
        msg = messageAt c ∨ d = recordAt new := by
  have hle : metaDataOffset / part.eraseSize ≤ bootloaderMessageOffset / part.eraseSize :=
    Nat.div_le_div_right (by decide)
  constructor
  · rintro ⟨c', ⟨k, -, hothers⟩, rfl, rfl⟩
    rcases Nat.eq_or_lt_of_le hle with heq | hlt
    · exact .inl heq
    -- the block is the record's or one before the message's, or else the record is stored
    rcases Nat.lt_or_ge k (bootloaderMessageOffset / part.eraseSize) with hbefore | hge
    · have hold : messageAt (halfway part new c k) = messageAt c :=
        messageAt_halfway hpage (Nat.le_of_lt hbefore)
      refine .inr (.inl (Eq.trans ?_ hold))
      refine congrArg BootloaderMessage.ofBytes (Content.read_congr fun j hj hj' => hothers j ?_)
      rw [message_block hpage hj hj']
      exact Nat.ne_of_gt hbefore
    · refine .inr (.inr (Eq.trans ?_ (recordAt_halfway (c := c) hpage (hlt.trans_le hge))))
      refine congrArg AbData.ofBytes (Content.read_congr fun j hj hj' => hothers j ?_)
      rw [record_block hpage hj hj']
      exact Nat.ne_of_lt (hlt.trans_le hge)
  · intro h
    rcases Nat.eq_or_lt_of_le hle with heq | hlt
    · refine ⟨((halfway part new c (bootloaderMessageOffset / part.eraseSize)).overwrite metaDataOffset
        d.toBytes).overwrite bootloaderMessageOffset msg.toBytes, ⟨_, hN, fun j hj => ?_⟩, ?_, ?_⟩
      · rw [overwrite_message_outside hpage msg hj, overwrite_record_outside hpage d (heq ▸ hj)]
      · rw [recordAt_overwrite_message, recordAt_overwrite]
      · exact messageAt_overwrite _ msg
    rcases h with heq | rfl | rfl
    · exact absurd heq (Nat.ne_of_lt hlt)
    · refine ⟨(halfway part new c (metaDataOffset / part.eraseSize)).overwrite metaDataOffset d.toBytes,
        ⟨_, hlt.trans hN, fun j hj => overwrite_record_outside hpage d hj⟩, recordAt_overwrite _ d, ?_⟩
      rw [messageAt, message_overwrite_record]
      exact messageAt_halfway hpage (Nat.le_of_lt hlt)
    · refine ⟨(halfway part new c (bootloaderMessageOffset / part.eraseSize)).overwrite bootloaderMessageOffset
        msg.toBytes, ⟨_, hN, fun j hj => overwrite_message_outside hpage msg hj⟩, ?_, messageAt_overwrite _ msg⟩
      rw [recordAt_overwrite_message]
      exact recordAt_halfway hpage hlt

end

/-- The power fails while misc is written, a partition below 2 GiB of whole blocks, which are
multiples of 2 KiB and hold the message. Where the record and the message lie in one block, any two
may be found; and otherwise any record with the message there was, and the record to come with any
message. -/
theorem misc_crash_iff (part : MtdPartition) (hsize : part.size < 2 ^ 31) (hmul : part.eraseSize ∣ part.size)
    (hpage : 2048 ∣ part.eraseSize) (hmisc : 17472 ≤ part.size) (worn : Nat → Block) (left c : Content)
    (buf : Bytes) (offset : Nat) (hfits : offset + buf.length ≤ part.size) :
    let med := Medium.withBad (fun _ => false) worn left
    let fd := (writeAll (med.writeDriver part) part [(c.overwrite offset buf).read 0 part.size]
      ⟨c, fun _ => 0⟩).2.writer.fd
    writeMiscMtd (mtdAccess med part c) buf offset = (0, some fd.state) ∧
      ∀ (d : AbData) (msg : BootloaderMessage),
        (∃ c', Crash.States (Event.effect left) Event.Torn fd.journal c c' ∧ recordAt c' = d ∧
          messageAt c' = msg) ↔
        metaDataOffset / part.eraseSize = bootloaderMessageOffset / part.eraseSize ∨
          msg = messageAt c ∨ d = recordAt (c.overwrite offset buf) := by
  intro med fd
  refine ⟨writeMiscMtd_eq_writeAll worn left c hsize hmul hfits, fun d msg => ?_⟩
  have hmessage : bootloaderMessageOffset / part.eraseSize < part.size / part.eraseSize := by
    rw [Nat.div_lt_iff_lt_mul part.eraseSize_pos, Nat.div_mul_cancel hmul, bootloaderMessageOffset]
    omega
  rw [← found_iff hpage hmessage (c.overwrite offset buf) c d msg]
  exact exists_congr fun c' => and_congr_left' (writeTotal_crash_iff hsize hmul (by omega) worn left c _ c')

/-- A new record is written to a misc partition of blocks of 16 KiB, and the message is kept, whatever
is found of the record. -/
theorem misc_crash_iff_nand :
    ∃ c', Crash.States (Event.effect fun _ => 255) Event.Torn
        (writeAll ((Medium.withBad (fun _ => false) (fun _ => Block.healthy) fun _ => 255).writeDriver
          ⟨65536, 16384, by decide, by decide⟩) ⟨65536, 16384, by decide, by decide⟩
          [(Content.overwrite (fun _ => 0) metaDataOffset (List.replicate 32 1)).read 0 65536]
          ⟨fun _ => 0, fun _ => 0⟩).2.writer.fd.journal (fun _ => 0) c' ∧
      recordAt c' = AbData.ofBytes (List.replicate 32 255) ∧ messageAt c' = messageAt fun _ => 0 :=
  ((misc_crash_iff ⟨65536, 16384, by decide, by decide⟩ (by decide) (by decide) (by decide) (by decide)
    (fun _ => Block.healthy) (fun _ => 255) (fun _ => 0) (List.replicate 32 1) metaDataOffset (by decide)).2
    (AbData.ofBytes (List.replicate 32 255)) (messageAt fun _ => 0)).mpr (.inr (.inl rfl))

end LinuxOta.Misc
