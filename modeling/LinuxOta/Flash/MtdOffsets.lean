-- SUMMARY: Where `off_t` holds the positions of `write_block`: what a write context touches and lists there, and what goes wrong elsewhere.
import LinuxOta.Flash.MtdBadList
import LinuxOta.Flash.MtdWidths
import Mathlib.Logic.Function.Iterate

namespace LinuxOta.Mtd.Widths

/-! # Positions in an off_t

`write_block` notices the end of the partition by comparing `pos + size` with its size. With
an `off_t` of 32 bits that sum is negative from 2 GiB on, and the end of a partition of nearly
that size is not noticed. -/

/-- For every position in the partition, `pos + size` is compared as it should be: `off_t` holds
the sum, or `(int) partition->size` is negative, and the sum is not. -/
def InRange (w : LongWidth) (part : MtdPartition) : Prop :=
  w = .bits64 ∨ part.size + part.eraseSize < 2 ^ 31 ∨
    2 ^ 31 ≤ part.size ∧ part.size + part.eraseSize < 2 ^ 32 + 2 ^ 31

instance (w : LongWidth) (part : MtdPartition) : Decidable (InRange w part) :=
  inferInstanceAs (Decidable (_ ∨ _ ∨ _ ∧ _))

section
variable {w : LongWidth} {part : MtdPartition}

theorem positions_stays (herase : part.eraseSize < 2 ^ 32) (h : InRange w part) :
    (positions w part).Stays part := by
  have hsize := part.size_lt
  have hend : ∀ pos ≤ part.size, (positions w part).fits pos → pos + part.eraseSize ≤ part.size := by
    intro pos hpos hfits
    have hle := asInt32_le part.size
    rw [positions_fits] at hfits
    rcases h with rfl | hsmall | ⟨hlarge, hsum⟩
    · rw [LongWidth.cast_of_le .bits64 (by simp only [LongWidth.longMax]; omega)] at hfits
      omega
    · rw [w.cast_of_lt (by omega)] at hfits
      omega
    · cases w with
      | bits64 =>
        rw [LongWidth.cast_of_le .bits64 (by simp only [LongWidth.longMax]; omega)] at hfits
        omega
      | bits32 =>
        simp only [LongWidth.cast, asInt32] at hfits
        split at hfits <;> split at hfits <;> omega
  exact ⟨hend, fun pos hpos hfits => w.toSize_of_lt (by have hin := hend pos hpos hfits; omega)⟩

/-- Elsewhere a block that ends behind the partition is taken for one of it. -/
theorem exists_fits_behind (herase : part.eraseSize < 2 ^ 32) (h : ¬ InRange w part) :
    ∃ pos ≤ part.size, part.size < pos + part.eraseSize ∧ (positions w part).fits pos := by
  have hsize := part.size_lt
  have hpos := part.eraseSize_pos
  obtain ⟨hw, hsmall, hlarge⟩ : w ≠ .bits64 ∧ ¬ part.size + part.eraseSize < 2 ^ 31 ∧
      ¬ (2 ^ 31 ≤ part.size ∧ part.size + part.eraseSize < 2 ^ 32 + 2 ^ 31) := by
    simpa only [InRange, not_or] using h
  obtain rfl : w = .bits32 := by
    cases w with
    | bits32 => rfl
    | bits64 => exact absurd rfl hw
  rcases Nat.lt_or_ge part.size (2 ^ 31) with hlt | hge
  · refine ⟨part.size, Nat.le_refl _, by omega, ?_⟩
    rw [positions_fits, asInt32_of_lt hlt]
    simp only [LongWidth.cast, asInt32]
    split <;> omega
  · refine ⟨2 ^ 32 + 2 ^ 31 - part.eraseSize, by omega, by omega, ?_⟩
    rw [positions_fits]
    simp only [LongWidth.cast, asInt32]
    split <;> split <;> omega

end

/-! ## A device of zeros -/

/-- A driver on which every byte reads as zero and every call goes through, with these answers to
`MEMGETBADBLOCK`. -/
def reporting (answer : Nat → BadBlockAnswer) : Driver Unit where
  tell _ := (true, ())
  seek _ _ := (true, ())
  getBadBlock pos _ := (answer pos, ())
  erase _ _ _ := (true, ())
  write _ _ _ := (.whole (), ())
  read _ _ _ := (.whole fun _ => 0, ())
  eccGetStats _ := (some 0, ())
  close _ := (true, ())

/-- A block of zeros. -/
def zeroBlock (part : MtdPartition) : Bytes := List.replicate part.eraseSize 0

section
variable (answer : Nat → BadBlockAnswer) (part : MtdPartition)

theorem zeroBlock_length : (zeroBlock part).length = part.eraseSize := List.length_replicate

/-- What happens to a block that is stored at the first try. -/
def storing (pos : Nat) : List Event :=
  [.erase pos part.eraseSize, .write pos (zeroBlock part), .read pos part.eraseSize (some (zeroBlock part)),
    .wroteBlock pos]

theorem retryBlock_reporting (pos turns : Nat) (fd : Fd Unit) :
    retryBlock (reporting answer) part pos (zeroBlock part) (turns + 1) fd =
      (true, ⟨pos + part.eraseSize, (), fd.journal ++ storing part pos⟩) := by
  have hzero : Content.read (fun _ => 0) 0 part.eraseSize = zeroBlock part := by
    simp [Content.read, zeroBlock]
  simp [retryBlock, tryBlock, Fd.erase, Fd.writeAt, Fd.seek, Fd.write, Fd.readAt, Fd.read, reporting,
    Transfer.moves, Fd.log, hzero, storing]

variable {part}

/-- A good block at the position takes the zeros. -/
theorem writeBlockFromBy_reporting {positions : Positions} {pos : Nat} (hfits : positions.fits pos)
    (hgood : answer pos = .good) (fuel : Nat) (writer : BlockWriter Unit) :
    writeBlockFromBy (reporting answer) part positions (zeroBlock part) (fuel + 1) pos writer =
      (0, { writer with fd := ⟨pos + part.eraseSize, (), writer.fd.journal ++
        .getBadBlock pos .good :: storing part pos⟩ }) := by
  have hquery : writer.fd.getBadBlock (reporting answer) pos =
      (.good, writer.fd.log (.getBadBlock pos .good)) := by
    simp [Fd.getBadBlock, reporting, hgood]
  rw [writeBlockFromBy, if_pos hfits, hquery]
  dsimp only
  rw [if_neg (by simp), retryBlock_reporting]
  simp

theorem writeBlock_reporting {w : LongWidth} {pos : Nat} (hfits : (positions w part).fits pos)
    (hgood : answer pos = .good) {writer : BlockWriter Unit} (hpos : writer.fd.pos = pos) :
    writeBlock w (reporting answer) part (zeroBlock part) writer =
      (0, { writer with fd := ⟨pos + part.eraseSize, (), writer.fd.journal ++
        .getBadBlock pos .good :: storing part pos⟩ }) := by
  have htell : writer.fd.tell (reporting answer) = (true, writer.fd) := rfl
  subst hpos
  rw [writeBlock, writeBlockBy, htell]
  dsimp only
  rw [if_neg (by decide)]
  exact writeBlockFromBy_reporting answer hfits hgood _ writer

end

/-! ## Coming round

Behind the end of a partition of nearly 2 GiB there are only negative positions, which no device
has. With 32 bits they are followed by the position 0. -/

/-- Blocks that answer that they are bad are passed over, wherever `pos` gets to. -/
theorem writeBlockFromBy_skips {σ : Type} {dev : Driver σ} (part : MtdPartition) {positions : Positions}
    {answer : Nat → BadBlockAnswer} (hdev : ∀ pos s, dev.getBadBlock pos s = (answer pos, s)) (data : Bytes)
    (fuel k : Nat) :
    ∀ (pos : Nat) (writer : BlockWriter σ),
      (∀ i < k, positions.fits (positions.next^[i] pos) ∧ answer (positions.next^[i] pos) = .bad) →
      ∃ (writer' : BlockWriter σ) (queries : List Event),
        writeBlockFromBy dev part positions data (fuel + k) pos writer =
          writeBlockFromBy dev part positions data fuel (positions.next^[k] pos) writer' ∧
        writer'.fd = ⟨writer.fd.pos, writer.fd.state, writer.fd.journal ++ queries⟩ ∧
        ∀ e ∈ queries, e.touches = none := by
  induction k with
  | zero => exact fun pos writer _ => ⟨writer, [], rfl, by simp, by simp⟩
  | succ k ih =>
    intro pos writer hskips
    obtain ⟨hfits, hbad⟩ := hskips 0 (Nat.succ_pos k)
    rw [Function.iterate_zero_apply] at hfits hbad
    have hquery : writer.fd.getBadBlock dev pos = (.bad, writer.fd.log (.getBadBlock pos .bad)) := by
      simp [Fd.getBadBlock, hdev, hbad]
    obtain ⟨writer', queries, heq, hfd, hqueries⟩ := ih (positions.next pos)
      (({ writer with fd := writer.fd.log (.getBadBlock pos .bad) } : BlockWriter σ).addBadBlockOffset pos)
      fun i hi => hskips (i + 1) (Nat.succ_lt_succ hi)
    refine ⟨writer', .getBadBlock pos .bad :: queries, ?_, ?_, List.forall_mem_cons.mpr ⟨rfl, hqueries⟩⟩
    · rw [← Nat.add_assoc, writeBlockFromBy, if_pos hfits, hquery]
      dsimp only
      rw [if_pos ⟨by decide, by decide⟩, heq, Function.iterate_succ_apply]
    · rw [hfd]
      simp [BlockWriter.addBadBlockOffset]

/-- A partition of 16383 blocks of 128 KiB. -/
def nearlyTwoGiB : MtdPartition := ⟨2 ^ 31 - 2 ^ 17, 2 ^ 17, by decide, by decide⟩

theorem next_iterate (i : Nat) :
    (positions .bits32 nearlyTwoGiB).next^[i] (2 ^ 17) = (i + 1) * 2 ^ 17 % 2 ^ 32 := by
  induction i with
  | zero => rfl
  | succ i ih =>
    rw [Function.iterate_succ_apply', ih]
    simp only [positions, nearlyTwoGiB, LongWidth.toSize, LongWidth.bits]
    omega

/-- The end of the partition is the one multiple that a sum would have to exceed below 2 GiB. -/
theorem fits_nearlyTwoGiB (i : Nat) : (positions .bits32 nearlyTwoGiB).fits (i * 2 ^ 17) := by
  have hsize : asInt32 nearlyTwoGiB.size = 2 ^ 31 - 2 ^ 17 := by decide
  have herase : nearlyTwoGiB.eraseSize = 2 ^ 17 := rfl
  rw [positions_fits, hsize, herase, LongWidth.cast, asInt32]
  split <;> omega

/-- Where all blocks but the first are bad, and so is everything behind the partition,
`write_block` gets from the second block back to the first. -/
theorem writeBlock_comes_round {σ : Type} {dev : Driver σ} {answer : Nat → BadBlockAnswer}
    (hdev : ∀ pos s, dev.getBadBlock pos s = (answer pos, s)) (htell : ∀ s, dev.tell s = (true, s))
    (hbad : ∀ i, 0 < i → answer (i * 2 ^ 17) = .bad) (data : Bytes) {writer : BlockWriter σ}
    (hpos : writer.fd.pos = 2 ^ 17) :
    ∃ (fuel : Nat) (writer' : BlockWriter σ) (queries : List Event),
      writeBlock .bits32 dev nearlyTwoGiB data writer =
        writeBlockFromBy dev nearlyTwoGiB (positions .bits32 nearlyTwoGiB) data (fuel + 1) 0 writer' ∧
      writer'.fd = ⟨writer.fd.pos, writer.fd.state, writer.fd.journal ++ queries⟩ ∧
      ∀ e ∈ queries, e.touches = none := by
  have hskips : ∀ i < 2 ^ 15 - 1,
      (positions .bits32 nearlyTwoGiB).fits ((positions .bits32 nearlyTwoGiB).next^[i] (2 ^ 17)) ∧
        answer ((positions .bits32 nearlyTwoGiB).next^[i] (2 ^ 17)) = .bad := by
    intro i hi
    have hmod : (i + 1) * 2 ^ 17 % 2 ^ 32 = (i + 1) * 2 ^ 17 := Nat.mod_eq_of_lt (by omega)
    rw [next_iterate, hmod]
    exact ⟨fits_nearlyTwoGiB _, hbad _ (Nat.succ_pos i)⟩
  obtain ⟨writer', queries, heq, hfd, hqueries⟩ := writeBlockFromBy_skips nearlyTwoGiB hdev data
    (2 ^ 31 - 2 ^ 17 - 2 ^ 15 + 2) (2 ^ 15 - 1) (2 ^ 17) writer hskips
  refine ⟨2 ^ 31 - 2 ^ 17 - 2 ^ 15 + 1, writer', queries, ?_, hfd, hqueries⟩
  have hkept : writer.fd.tell dev = (true, writer.fd) := by
    simp [Fd.tell, htell]
  have hround : (2 ^ 15 - 1 + 1) * 2 ^ 17 % 2 ^ 32 = 0 := by decide
  rw [next_iterate, hround] at heq
  rw [writeBlock, writeBlockBy, hkept]
  dsimp only
  rw [hpos]
  exact heq

/-- Only the first block is good. -/
def onlyFirst (pos : Nat) : BadBlockAnswer := if pos = 0 then .good else .bad

/-- A block of zeros, written to the first block. -/
def firstWritten : BlockWriter Unit :=
  ⟨⟨2 ^ 17, (), .getBadBlock 0 .good :: storing nearlyTwoGiB 0⟩, [], 0⟩

theorem writeBlock_first :
    writeBlock .bits32 (reporting onlyFirst) nearlyTwoGiB (zeroBlock nearlyTwoGiB) (writePartition ()).writer =
      (0, firstWritten) := by
  have hfits := fits_nearlyTwoGiB 0
  rw [Nat.zero_mul] at hfits
  rw [writeBlock_reporting onlyFirst hfits rfl rfl]
  rfl

/-- The next block of zeros goes to the first block again. -/
theorem writeBlock_again :
    ∃ (writer : BlockWriter Unit) (queries post : List Event),
      writeBlock .bits32 (reporting onlyFirst) nearlyTwoGiB (zeroBlock nearlyTwoGiB) firstWritten = (0, writer) ∧
      writer.fd.pos = 2 ^ 17 ∧
      writer.fd.journal = firstWritten.fd.journal ++ queries ++ .erase 0 (2 ^ 17) :: post := by
  have hbad : ∀ i, 0 < i → onlyFirst (i * 2 ^ 17) = .bad := fun i hi => if_neg (by omega)
  have hfits := fits_nearlyTwoGiB 0
  rw [Nat.zero_mul] at hfits
  have hreports : ∀ pos s, (reporting onlyFirst).getBadBlock pos s = (onlyFirst pos, s) := fun _ _ => rfl
  have hat : firstWritten.fd.pos = 2 ^ 17 := rfl
  obtain ⟨fuel, writer, queries, heq, hfd, -⟩ :=
    writeBlock_comes_round hreports (fun _ => rfl) hbad (zeroBlock nearlyTwoGiB) hat
  rw [writeBlockFromBy_reporting onlyFirst hfits rfl] at heq
  refine ⟨_, queries ++ [.getBadBlock 0 .good], (storing nearlyTwoGiB 0).tail, heq, rfl, ?_⟩
  simp only [hfd, storing, List.tail_cons, List.append_assoc, List.singleton_append]
  rfl

/-! ## What a write context touches -/

/-- In every run on a write context, over any driver, each erase and each write goes to a
block that was asked for just before and is not bad, lies between the position at the
opening and the end of the partition, and spares every block written before. -/
def WritesSafely (w : LongWidth) (part : MtdPartition) : Prop :=
  ∀ {σ : Type} (dev : Driver σ) (start : Nat), start ≤ part.size →
    ∀ (state : σ) (calls : List WriteCall) (pre post : List Event) (e : Event) (pos length : Nat),
      (runWrites w dev part calls (openedAt start state)).writer.fd.journal = pre ++ e :: post →
      e.touches = some (pos, length) → TouchSafe part start pre pos length

section
variable {w : LongWidth} {part : MtdPartition}

theorem writesSafely_of_inRange (herase : part.eraseSize < 2 ^ 32) (h : InRange w part) : WritesSafely w part := by
  intro σ dev start hstart state calls pre post e pos length hjournal htouches
  have hstays := positions_stays herase h
  have hblock : ∀ data (writer : BlockWriter σ), data.length = part.eraseSize →
      Guarded part start writer.fd.pos writer.fd →
      Guarded part start (writeBlock w dev part data writer).2.fd.pos (writeBlock w dev part data writer).2.fd :=
    fun data writer hdata hguarded => writeBlockBy_guarded dev hstays hdata hguarded
  have hrun := runWritesBy_safe dev hblock calls _ (openedAt_safe hstart state)
  exact hrun.guarded.safe pre e post hjournal pos length htouches

theorem runWrites_nil {σ : Type} (dev : Driver σ) (ctx : WriteContext σ) : runWrites w dev part [] ctx = ctx := rfl

/-- A call for one block on a context that stores nothing. -/
theorem runWrites_block {σ : Type} {dev : Driver σ} {data : Bytes} (hdata : data.length = part.eraseSize)
    {writer writer' : BlockWriter σ} (h : writeBlock w dev part data writer = (0, writer')) (calls : List WriteCall) :
    runWrites w dev part (.writeData data :: calls) ⟨writer, []⟩ = runWrites w dev part calls ⟨writer', []⟩ := by
  have hcall := writeDataBy_block part (writeBlock w dev part) hdata (congrArg Prod.fst h)
  rw [h] at hcall
  have hfirst : runWrites w dev part (.writeData data :: calls) ⟨writer, []⟩ =
      runWrites w dev part calls (writeDataBy part (writeBlock w dev part) data ⟨writer, []⟩).2 := rfl
  rw [hfirst, hcall]

/-- A good block is reported where the partition has ended. -/
theorem not_writesSafely (herase : part.eraseSize < 2 ^ 32) (h : ¬ InRange w part) : ¬ WritesSafely w part := by
  obtain ⟨pos, hpos, hend, hfits⟩ := exists_fits_behind herase h
  intro hsafe
  have hat : (openedAt pos ()).writer.fd.pos = pos := rfl
  have hstored := writeBlock_reporting (fun _ => .good) hfits rfl hat
  have hrun := runWrites_block (zeroBlock_length part) hstored []
  have htouch := hsafe (reporting fun _ => .good) pos hpos () [.writeData (zeroBlock part)] [.getBadBlock pos .good] _
    (.erase pos part.eraseSize) pos part.eraseSize (congrArg (fun ctx => ctx.writer.fd.journal) hrun) rfl
  exact absurd htouch.end_le (by omega)

/-- A write context is safe in every run if and only if positions up to the end of the
partition are compared as they should be. -/
theorem write_context_safe_iff (w : LongWidth) (part : MtdPartition) (herase : part.eraseSize < 2 ^ 32) :
    WritesSafely w part ↔ InRange w part :=
  ⟨fun hsafe => Classical.byContradiction fun h => not_writesSafely herase h hsafe, writesSafely_of_inRange herase⟩

theorem write_context_safe_iff_two_blocks : WritesSafely .bits32 ⟨4, 2, by decide, by decide⟩ :=
  (write_context_safe_iff .bits32 ⟨4, 2, by decide, by decide⟩ (by decide)).mpr (by decide)

/-- Two calls for a block of zeros each: the first block is erased after it was written. -/
theorem written_block_erased :
    (∃ pre post, (runWrites .bits32 (reporting onlyFirst) nearlyTwoGiB
        [.writeData (zeroBlock nearlyTwoGiB), .writeData (zeroBlock nearlyTwoGiB)] (openedAt 0 ())).writer.fd.journal =
          pre ++ .erase 0 (2 ^ 17) :: post ∧ .wroteBlock 0 ∈ pre) ∧
      ¬ WritesSafely .bits32 nearlyTwoGiB := by
  obtain ⟨writer, queries, post, heq, -, hjournal⟩ := writeBlock_again
  have hopened : openedAt 0 () = ⟨(writePartition ()).writer, []⟩ := rfl
  have hrun := (runWrites_block (zeroBlock_length _) writeBlock_first
    [.writeData (zeroBlock nearlyTwoGiB)]).trans (runWrites_block (zeroBlock_length _) heq [])
  rw [← hopened, runWrites_nil] at hrun
  have herased : (runWrites .bits32 (reporting onlyFirst) nearlyTwoGiB
        [.writeData (zeroBlock nearlyTwoGiB), .writeData (zeroBlock nearlyTwoGiB)] (openedAt 0 ())).writer.fd.journal =
      firstWritten.fd.journal ++ queries ++ .erase 0 (2 ^ 17) :: post := by
    rw [hrun]
    exact hjournal
  have hwrote : .wroteBlock 0 ∈ firstWritten.fd.journal ++ queries :=
    List.mem_append_left _ (by simp [firstWritten, storing])
  refine ⟨⟨_, post, herased, hwrote⟩, fun hsafe => ?_⟩
  have htouch := hsafe (reporting onlyFirst) 0 (Nat.zero_le _) () _ _ post _ _ _ herased rfl
  rcases htouch.spares 0 hwrote with hbefore | hbehind
  · exact absurd hbefore (by decide)
  · exact absurd hbehind (by decide)

end

/-! ## What is listed as bad -/

/-- A `write_block` at the position `p0` that returns 0 has stored its data some blocks behind it,
read them back, and listed the blocks it passed over. -/
def StoresBehind (w : LongWidth) (part : MtdPartition) (p0 : Nat) : Prop :=
  ∀ {σ : Type} (dev : Driver σ) (data : Bytes) (writer : BlockWriter σ), writer.fd.pos = p0 →
    (writeBlock w dev part data writer).1 = 0 →
    ∃ k, StoredBehind part data p0 k writer (writeBlock w dev part data writer).2

/-- Up to the first call that fails, and after it, the list is sorted and fits its allocation, and
`mtd_find_write_start` finds the least position from a given one on that is not listed. -/
def ListsSoundly (w : LongWidth) (part : MtdPartition) : Prop :=
  ∀ {σ : Type} (dev : Driver σ) (state : σ) (calls : List Bytes),
    (∀ ret ∈ (writeCalls w dev part calls (writePartition state)).1.dropLast, ret ≠ -1) →
    let writer := (writeCalls w dev part calls (writePartition state)).2.writer
    writer.badBlockOffsets.Pairwise (· < ·) ∧ writer.badBlockOffsets.length ≤ writer.badBlockAlloc ∧
      ∀ pos : Int, (part.eraseSize : Int) ∣ pos →
        IsLeast {q : Int | pos ≤ q ∧ (part.eraseSize : Int) ∣ q ∧
          ∀ offset ∈ writer.badBlockOffsets, (offset : Int) ≠ q} (findWriteStart part writer pos)

section
variable {w : LongWidth} {part : MtdPartition}

theorem storesBehind_of_inRange (herase : part.eraseSize < 2 ^ 32) (h : InRange w part) {p0 : Nat}
    (hp0 : p0 ≤ part.size) : StoresBehind w part p0 := by
  intro σ dev data writer hpos hret
  subst hpos
  obtain ⟨k, -, hstored⟩ := writeBlockBy_stored dev (positions_stays herase h) data writer hp0
  exact ⟨k, hstored hret⟩

theorem listsSoundly_of_inRange (herase : part.eraseSize < 2 ^ 32) (h : InRange w part) : ListsSoundly w part := by
  intro σ dev state calls hrets writer
  have hlisted : Listed part writer :=
    writeCallsBy_listed (fun data writer hpos => writeBlockBy_stored dev (positions_stays herase h) data writer hpos)
      calls _ [] (behind_fresh state) part.eraseSize_pos hrets
  exact ⟨hlisted.increasing, hlisted.count_le, fun pos hpos =>
    findWriteStartFrom_isLeast part.eraseSize_pos _ hlisted.increasing hlisted.multiples pos hpos⟩

/-- A good block that is reported where the partition has ended takes the data. -/
theorem not_storesBehind {p0 : Nat} (hend : part.size < p0 + part.eraseSize) (hfits : (positions w part).fits p0) :
    ¬ StoresBehind w part p0 := by
  intro hstores
  have hat : (openedAt p0 ()).writer.fd.pos = p0 := rfl
  have hstored := writeBlock_reporting (fun _ => .good) hfits rfl hat
  obtain ⟨k, hbehind⟩ := hstores (reporting fun _ => .good) (zeroBlock part) (openedAt p0 ()).writer hat
    (congrArg Prod.fst hstored)
  have hle := hbehind.end_le
  omega

/-- Behind the end something is stored if the sum wraps around to a number that is not greater. -/
theorem storesBehind_iff {p0 : Nat} (hp0 : part.size < p0) :
    StoresBehind w part p0 ↔ asInt32 part.size < w.cast (p0 + part.eraseSize) := by
  constructor
  · intro hstores
    by_contra hnot
    exact not_storesBehind (Nat.lt_of_lt_of_le hp0 (Nat.le_add_right _ _)) (Int.not_lt.mp hnot) hstores
  · intro hsum σ dev data writer hpos hret
    have hkept : (writer.fd.tell dev).2.pos = writer.fd.pos := rfl
    rw [writeBlock, writeBlockBy] at hret
    generalize writer.fd.tell dev = r at hkept hret
    obtain ⟨ok, fd⟩ := r
    cases ok with
    | false => exact absurd hret (show (1 : Int) ≠ 0 by decide)
    | true =>
      have hfits : ¬ (positions w part).fits fd.pos := by
        rw [positions_fits, show fd.pos = p0 from hkept.trans hpos]
        exact Int.not_le.mpr hsum
      dsimp only at hret
      rw [writeBlockFromBy, if_neg (show ¬ (!true) = true by decide), if_neg hfits] at hret
      exact absurd hret (show (-1 : Int) ≠ 0 by decide)

/-- What `write_block` stores and lists is as it should be if and only if positions up to the
end of the partition are compared as they should be; and from a position behind the end, if and only
if that one is. -/
theorem badBlock_list_sound_iff (w : LongWidth) (part : MtdPartition) (herase : part.eraseSize < 2 ^ 32) :
    ((∀ p0 ≤ part.size, StoresBehind w part p0) ∧ ListsSoundly w part ↔ InRange w part) ∧
    ∀ p0, part.size < p0 → (StoresBehind w part p0 ↔ asInt32 part.size < w.cast (p0 + part.eraseSize)) := by
  refine ⟨⟨fun hsound => ?_, fun h => ?_⟩, fun p0 hp0 => storesBehind_iff hp0⟩
  · by_contra h
    obtain ⟨pos, hpos, hend, hfits⟩ := exists_fits_behind herase h
    exact not_storesBehind hend hfits (hsound.1 pos hpos)
  · exact ⟨fun p0 hp0 => storesBehind_of_inRange herase h hp0, listsSoundly_of_inRange herase h⟩

theorem badBlock_list_sound_iff_two_blocks :
    (∀ p0 ≤ 4, StoresBehind .bits32 ⟨4, 2, by decide, by decide⟩ p0) ∧
      ListsSoundly .bits32 ⟨4, 2, by decide, by decide⟩ :=
  (badBlock_list_sound_iff .bits32 ⟨4, 2, by decide, by decide⟩ (by decide)).1.mpr (by decide)

/-- The second of two blocks of zeros is stored where the first one was, before the position of
the call. -/
theorem block_stored_before :
    (∃ writer, writeBlock .bits32 (reporting onlyFirst) nearlyTwoGiB (zeroBlock nearlyTwoGiB) firstWritten = (0, writer) ∧
      writer.fd.pos = firstWritten.fd.pos) ∧ ¬ StoresBehind .bits32 nearlyTwoGiB (2 ^ 17) := by
  obtain ⟨writer, queries, post, heq, hpos, -⟩ := writeBlock_again
  refine ⟨⟨writer, heq, hpos⟩, fun hstores => ?_⟩
  obtain ⟨k, hbehind⟩ := hstores (reporting onlyFirst) (zeroBlock nearlyTwoGiB) firstWritten rfl (congrArg Prod.fst heq)
  have hat : writer.fd.pos = 2 ^ 17 + k * 2 ^ 17 + 2 ^ 17 := by
    have hverified := hbehind.verified.pos_eq
    rw [heq] at hverified
    exact hverified
  omega

end

/-! ## Whole blocks

As long as every transfer is complete, `write_block` starts at the end of a block. -/

/-- `off_t` holds the end of the first block that is not in the partition. -/
def EndsInside (w : LongWidth) (part : MtdPartition) : Prop :=
  (((part.size / part.eraseSize + 1) * part.eraseSize : Nat) : Int) ≤ w.longMax

instance (w : LongWidth) (part : MtdPartition) : Decidable (EndsInside w part) :=
  inferInstanceAs (Decidable (_ ≤ _))

section
variable {σ : Type} {w : LongWidth} {dev : Driver σ} {part : MtdPartition} (h : EndsInside w part)

include h in
theorem positions_of_block {n : Nat} (hn : n * part.eraseSize ≤ part.size) :
    ((positions w part).fits (n * part.eraseSize) ↔
      ((n * part.eraseSize : Nat) : Int) + part.eraseSize ≤ asInt32 part.size) ∧
    (((n * part.eraseSize : Nat) : Int) + part.eraseSize ≤ asInt32 part.size →
      (positions w part).next (n * part.eraseSize) = n * part.eraseSize + part.eraseSize) := by
  have hmul := Nat.mul_le_mul_right part.eraseSize
    (Nat.succ_le_succ ((Nat.le_div_iff_mul_le part.eraseSize_pos).mpr hn))
  have hmax : ((n * part.eraseSize + part.eraseSize : Nat) : Int) ≤ w.longMax := by
    rw [← Nat.succ_mul]
    exact Int.le_trans (Int.ofNat_le.mpr hmul) h
  have hsize := part.size_lt
  have hle := asInt32_le part.size
  rw [positions_fits, w.cast_of_le hmax, Int.natCast_add]
  exact ⟨Iff.rfl, fun hend => w.toSize_of_lt (by omega)⟩

include h in
theorem writeBlockFromBy_eq {data : Bytes} :
    ∀ (fuel n : Nat) (writer : BlockWriter σ), n * part.eraseSize ≤ part.size →
      writeBlockFromBy dev part (positions w part) data fuel (n * part.eraseSize) writer =
        writeBlockFrom dev part data fuel (n * part.eraseSize) writer := by
  intro fuel
  induction fuel with
  | zero => exact fun _ _ _ => rfl
  | succ fuel ih =>
    intro n writer hn
    obtain ⟨hfits, hnext⟩ := positions_of_block h hn
    rw [writeBlockFromBy, writeBlockFrom_succ]
    by_cases hroom : ((n * part.eraseSize : Nat) : Int) + part.eraseSize ≤ asInt32 part.size
    swap
    · rw [if_neg hroom, if_neg fun hin => hroom (hfits.mp hin)]
    have hle := asInt32_le part.size
    have hin : (n + 1) * part.eraseSize ≤ part.size := by
      rw [Nat.succ_mul]
      omega
    rw [if_pos hroom, if_pos (hfits.mpr hroom), hnext hroom, ← Nat.succ_mul]
    generalize writer.fd.getBadBlock dev (n * part.eraseSize) = r
    obtain ⟨answer, fd₁⟩ := r
    dsimp only
    split
    · exact ih _ _ hin
    generalize retryBlock dev part (n * part.eraseSize) data 2 fd₁ = r
    obtain ⟨ok, fd₂⟩ := r
    cases ok with
    | true => rfl
    | false => exact ih _ _ hin

variable (dev) in
include h in
theorem writeBlock_eq (data : Bytes) {writer : BlockWriter σ} (hdvd : part.eraseSize ∣ writer.fd.pos)
    (hpos : writer.fd.pos ≤ part.size) : writeBlock w dev part data writer = Mtd.writeBlock dev part data writer := by
  have hkept : (writer.fd.tell dev).2.pos = writer.fd.pos := rfl
  obtain ⟨n, hn⟩ := hdvd
  rw [Nat.mul_comm] at hn
  rw [hn] at hpos hkept
  rw [writeBlock, Mtd.writeBlock, writeBlockBy, writeBlockBy]
  generalize writer.fd.tell dev = r at hkept
  obtain ⟨ok, fd⟩ := r
  cases ok with
  | false => rfl
  | true =>
    dsimp only at hkept ⊢
    rw [hkept]
    exact writeBlockFromBy_eq h _ n _ hpos

include h in
theorem writeBlocks_eq {bs : List Bytes} :
    ∀ {writer : BlockWriter σ}, part.eraseSize ∣ writer.fd.pos → writer.fd.pos ≤ part.size →
      writeBlocks (writeBlock w dev part) bs writer = writeBlocks (Mtd.writeBlock dev part) bs writer := by
  induction bs with
  | nil => exact fun _ _ => rfl
  | cons b bs ih =>
    intro writer hdvd hpos
    have hblock := writeBlock_eq dev h b hdvd hpos
    by_cases hret : (Mtd.writeBlock dev part b writer).1 = 0
    · obtain ⟨k, -, hstored⟩ := writeBlockBy_stored dev (Positions.unbounded_stays part) b writer hpos
      have hbehind : StoredBehind part b writer.fd.pos k writer (Mtd.writeBlock dev part b writer).2 := hstored hret
      have hat := hbehind.verified.pos_eq
      have hend := hbehind.end_le
      rw [writeBlocks_cons hret, writeBlocks_cons (by rw [hblock, hret]), hblock]
      refine ih ?_ (by omega)
      rw [hat]
      exact Nat.dvd_add (Nat.dvd_add hdvd (Nat.dvd_mul_left _ _)) (Nat.dvd_refl _)
    · rw [writeBlocks_cons_of_fails hret, writeBlocks_cons_of_fails (by rw [hblock]; exact hret)]

end

end LinuxOta.Mtd.Widths
