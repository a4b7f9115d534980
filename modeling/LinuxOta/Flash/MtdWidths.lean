-- SUMMARY: `mtd_read_data` and `mtd_write_data` with `off_t`, `ssize_t` and `size_t` of 32 or 64 bits.
import LinuxOta.Flash.MtdSafety
import LinuxOta.Flash.MtdStream
import LinuxOta.System.LongWidth

namespace LinuxOta.Mtd.Widths

/-! # Widths

`read_block` and `write_block` hold the size of an erase block in a `ssize_t`, and
`write_block` a position in an `off_t`. The loops around them are for lengths that `ssize_t`
holds, where its width does not matter. A position of 32 bits from 2 GiB on stands for the
negative one with the same bits. -/

section
variable {σ : Type} (w : LongWidth) (dev : Driver σ) (part : MtdPartition)

/-! ## Reading -/

/-- `lseek64(fd, pos, SEEK_SET) != pos || read(fd, data, size) != size`. A `read` does not
transfer more bytes than `ssize_t` holds. -/
def readAt (pos : Nat) (fd : Fd σ) : Option Bytes × Fd σ :=
  let (data, fd) := fd.readAt dev pos part.eraseSize
  (if w.cast part.eraseSize < 0 then none else data, fd)

/-- `read_block`, whose `pos` is a `loff_t` of 64 bits. -/
def readBlock (fd : Fd σ) : Option Bytes × Fd σ :=
  readBlockBy dev part (w.cast part.eraseSize) (readAt w dev part) fd

/-- `mtd_read_data`. -/
def readData (len : Nat) (ctx : ReadContext σ) : Option Bytes × ReadContext σ :=
  readDataBy part (readBlock w dev part) len ctx

/-- `readCallsBy` over `read_block`. -/
def readCalls (lens : List Nat) (ctx : ReadContext σ) : List (Option Bytes) × ReadContext σ :=
  readCallsBy part (readBlock w dev part) lens ctx

/-! ## Writing -/

/-- The sums of an `off_t`, which wrap around where it does not hold them. -/
def positions : Positions where
  fits pos := w.cast (pos + part.eraseSize) ≤ asInt32 part.size
  next pos := w.toSize (pos + part.eraseSize : Nat)

theorem positions_fits {pos : Nat} :
    (positions w part).fits pos ↔ w.cast (pos + part.eraseSize) ≤ asInt32 part.size := Iff.rfl

/-- `write_block`. -/
def writeBlock (data : Bytes) (writer : BlockWriter σ) : Int × BlockWriter σ :=
  writeBlockBy dev part (positions w part) data writer

/-- `mtd_write_data`, which is `none` if it does not end. -/
def writeData (data : Bytes) (ctx : WriteContext σ) : Option (Int × WriteContext σ) :=
  Chunks.writeData (writeBlock w dev part) part.eraseSize data ctx

/-- `writeCallsBy` over `write_block`. -/
def writeCalls (calls : List Bytes) (ctx : WriteContext σ) : List Int × WriteContext σ :=
  writeCallsBy part (writeBlock w dev part) calls ctx

/-- `writeAllBy` over `write_block`. -/
def writeAll (calls : List Bytes) (state : σ) : List Int × WriteContext σ :=
  writeAllBy dev part (writeBlock w dev part) calls state

/-- `runWritesBy` over `write_block`. -/
def runWrites (calls : List WriteCall) (ctx : WriteContext σ) : WriteContext σ :=
  runWritesBy dev part (writeBlock w dev part) calls ctx

end

section
variable {σ : Type} {w : LongWidth} {dev : Driver σ} {part : MtdPartition}

/-! ## Reading does not depend on the width -/

/-- `ssize_t` holds the size of an erase block. -/
theorem readBlock_eq (hcast : w.cast part.eraseSize = part.eraseSize) :
    readBlock w dev part = Mtd.readBlock dev part := by
  have hread : readAt w dev part = fun pos fd => fd.readAt dev pos part.eraseSize := by
    funext pos fd
    rw [readAt, hcast]
    obtain ⟨data, fd'⟩ := fd.readAt dev pos part.eraseSize
    dsimp only
    rw [if_neg (show ¬ (part.eraseSize : Int) < 0 by omega)]
  funext fd
  rw [readBlock, Mtd.readBlock, hread, hcast]

theorem readData_eq (hcast : w.cast part.eraseSize = part.eraseSize) (len : Nat) (ctx : ReadContext σ) :
    readData w dev part len ctx = Mtd.readData dev part len ctx := by
  rw [readData, readBlock_eq hcast, Mtd.readData]

/-- No byte is asked for where the length is negative as an `int`. -/
theorem readData_negative (dev : Driver σ) {len : Nat} (hneg : asInt32 len < 0) (ctx : ReadContext σ) :
    (readData w dev part len ctx).1 = some [] := by
  have hnone : ¬ (([] : Bytes).length : Int) < asInt32 len := by
    rw [List.length_nil]
    omega
  rw [readData, readDataBy, readDataFromBy, if_neg hnone]

theorem readCalls_eq (hcast : w.cast part.eraseSize = part.eraseSize) (lens : List Nat) (ctx : ReadContext σ) :
    readCalls w dev part lens ctx = Mtd.readCalls dev part lens ctx := by
  rw [readCalls, readBlock_eq hcast, Mtd.readCalls]

/-! ## Nor does writing, as long as it succeeds -/

variable (w dev part) in
/-- A call on a fresh context hands over the complete blocks of its data. -/
theorem writeData_gives (data : Bytes) (state : σ) :
    Chunks.Gives (writeBlock w dev part) part.eraseSize (Blocks.whole part.eraseSize data)
      (writePartition state).writer data.length (Blocks.rest part.eraseSize data)
      (writeData w dev part data ⟨(writePartition state).writer, []⟩) :=
  Chunks.writeData_gives (writeBlock w dev part) data part.eraseSize_pos (writePartition state).writer
    (show ([] : Bytes).length ≤ part.eraseSize from Nat.zero_le _) fun h => absurd h (Nat.ne_of_lt part.eraseSize_pos)

/-- On partitions below 2 GiB no position leaves the range of `off_t` before a block is stored. -/
theorem writeBlockFrom_of_success (hsize : part.size < 2 ^ 31) {data : Bytes} :
    ∀ (fuel pos : Nat) (writer : BlockWriter σ), (Mtd.writeBlockFrom dev part data fuel pos writer).1 = 0 →
      writeBlockFromBy dev part (positions w part) data fuel pos writer =
        Mtd.writeBlockFrom dev part data fuel pos writer := by
  intro fuel
  induction fuel with
  | zero => exact fun _ _ h => absurd h (by simp [writeBlockFrom_zero])
  | succ fuel ih =>
    intro pos writer h
    rw [writeBlockFrom_succ] at h ⊢
    split at h
    swap
    · exact absurd (show (-1 : Int) = 0 from h) (by decide)
    rename_i hroom
    have hend : (pos + part.eraseSize : Int) ≤ part.size := by
      rwa [asInt32_of_lt hsize] at hroom
    have hfits : (positions w part).fits pos := by
      rw [positions_fits, asInt32_of_lt hsize, w.cast_of_lt (by omega)]
      exact hend
    have hnext : (positions w part).next pos = pos + part.eraseSize := w.toSize_of_lt (by omega)
    rw [writeBlockFromBy, if_pos hroom, if_pos hfits, hnext]
    generalize writer.fd.getBadBlock dev pos = r at h ⊢
    obtain ⟨answer, fd₁⟩ := r
    dsimp only at h ⊢
    split at h
    · rename_i hskip
      rw [if_pos hskip, if_pos hskip]
      exact ih _ _ h
    rename_i hskip
    rw [if_neg hskip, if_neg hskip]
    generalize retryBlock dev part pos data 2 fd₁ = r at h ⊢
    obtain ⟨ok, fd₂⟩ := r
    cases ok with
    | true => rfl
    | false => exact ih _ _ h

theorem writeBlock_of_success (hsize : part.size < 2 ^ 31) {data : Bytes} {writer : BlockWriter σ}
    (h : (Mtd.writeBlock dev part data writer).1 = 0) :
    writeBlock w dev part data writer = Mtd.writeBlock dev part data writer := by
  rw [Mtd.writeBlock, writeBlockBy] at h ⊢
  rw [writeBlock, writeBlockBy]
  generalize writer.fd.tell dev = r at h ⊢
  obtain ⟨ok, fd⟩ := r
  cases ok with
  | false => exact absurd (show (1 : Int) = 0 from h) (by decide)
  | true => exact writeBlockFrom_of_success hsize _ _ _ h

theorem writeBlocks_of_success (hsize : part.size < 2 ^ 31) {bs : List Bytes} :
    ∀ {writer writer' : BlockWriter σ}, writeBlocks (Mtd.writeBlock dev part) bs writer = some writer' →
      writeBlocks (writeBlock w dev part) bs writer = some writer' := by
  induction bs with
  | nil => exact fun h => h
  | cons b bs ih =>
    intro writer writer' h
    by_cases hret : (Mtd.writeBlock dev part b writer).1 = 0
    · rw [writeBlocks_cons hret] at h
      have hblock := writeBlock_of_success (w := w) hsize hret
      rw [writeBlocks_cons (by rw [hblock, hret]), hblock]
      exact ih h
    · rw [writeBlocks_cons_of_fails hret] at h
      cases h

end

end LinuxOta.Mtd.Widths
