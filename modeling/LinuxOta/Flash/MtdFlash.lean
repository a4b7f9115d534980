-- SUMMARY: `mtd_flash`: reading and writing an MTD partition block by block, over any answers of the driver.
import LinuxOta.Base.Bytes
import LinuxOta.Base.Int32
import LinuxOta.Flash.MtdChunks

namespace LinuxOta

/-! # mtd_flash

The functions work on a character device whose driver answers every call as it
likes. `Mtd.readBlock` and `Mtd.writeBlock` compute with unbounded positions, as an
`off_t` and `ssize_t` of 64 bits do. On the ARM target both have 32 bits, and a position
behind the end of a partition of nearly 2 GiB does not fit: see `LinuxOta.Flash.MtdWidths`.
What calls `read_block` and `write_block` is therefore stated over any such function. -/

/-- `MtdPartition`, as far as the functions below read it. -/
structure MtdPartition where
  size : Nat
  eraseSize : Nat
  size_lt : size < 2 ^ 32
  eraseSize_pos : 0 < eraseSize

namespace Mtd

/-! ## The device -/

/-- What `MEMGETBADBLOCK` returns. -/
inductive BadBlockAnswer where
  /-- 0. -/
  | good
  /-- A positive value. -/
  | bad
  /-- -1, and `errno` is `EOPNOTSUPP`. -/
  | unsupported
  /-- -1, for another reason. -/
  | failed
  deriving DecidableEq, Repr

/-- How a `read` or `write` ends. -/
inductive Transfer (α : Type) where
  | whole (a : α)
  /-- Another length, or -1, is returned. The position has moved by `moved`, as far as the
  length that was asked for. -/
  | short (moved : Nat)

/-- How far a transfer of `length` bytes moves the file position. -/
def Transfer.moves {α : Type} (length : Nat) : Transfer α → Nat
  | whole _ => length
  | short moved => min moved length

/-- How the driver answers the calls on a descriptor. -/
structure Driver (σ : Type) where
  /-- `lseek(fd, 0, SEEK_CUR)` does not fail. -/
  tell : σ → Bool × σ
  /-- `lseek(fd, pos, SEEK_SET)` does not fail. -/
  seek : (pos : Nat) → σ → Bool × σ
  getBadBlock : (pos : Nat) → σ → BadBlockAnswer × σ
  /-- `MEMERASE` does not fail. -/
  erase : (start length : Nat) → σ → Bool × σ
  write : (pos : Nat) → (data : Bytes) → σ → Transfer Unit × σ
  /-- What is read are the first bytes of a content. -/
  read : (pos length : Nat) → σ → Transfer Content × σ
  /-- The counter `failed` of `ECCGETSTATS`. -/
  eccGetStats : σ → Option Nat × σ
  close : σ → Bool × σ

/-- The calls on a descriptor. -/
inductive Event where
  | getBadBlock (pos : Nat) (answer : BadBlockAnswer)
  | erase (start length : Nat)
  | write (pos : Nat) (data : Bytes)
  /-- The data are `none` when the read was short. -/
  | read (pos length : Nat) (data : Option Bytes)
  /-- The message "successfully wrote block". -/
  | wroteBlock (pos : Nat)
  deriving DecidableEq, Repr

/-- A descriptor: its file position, the state of the driver, and the calls made. -/
structure Fd (σ : Type) where
  pos : Nat
  state : σ
  journal : List Event

variable {σ : Type}

namespace Fd

def log (fd : Fd σ) (e : Event) : Fd σ :=
  { fd with journal := fd.journal ++ [e] }

@[simp] theorem log_pos (fd : Fd σ) (e : Event) : (fd.log e).pos = fd.pos := rfl
@[simp] theorem log_state (fd : Fd σ) (e : Event) : (fd.log e).state = fd.state := rfl
@[simp] theorem log_journal (fd : Fd σ) (e : Event) : (fd.log e).journal = fd.journal ++ [e] := rfl

variable (dev : Driver σ)

def tell (fd : Fd σ) : Bool × Fd σ :=
  let (ok, state) := dev.tell fd.state
  (ok, { fd with state := state })

def seek (pos : Nat) (fd : Fd σ) : Bool × Fd σ :=
  let (ok, state) := dev.seek pos fd.state
  (ok, { fd with pos := if ok then pos else fd.pos, state := state })

def getBadBlock (pos : Nat) (fd : Fd σ) : BadBlockAnswer × Fd σ :=
  let (answer, state) := dev.getBadBlock pos fd.state
  (answer, { fd with state := state }.log (.getBadBlock pos answer))

def erase (start length : Nat) (fd : Fd σ) : Bool × Fd σ :=
  let (ok, state) := dev.erase start length fd.state
  (ok, { fd with state := state }.log (.erase start length))

/-- What `write` returns is only looked at for a message. -/
def write (data : Bytes) (fd : Fd σ) : Fd σ :=
  let (answer, state) := dev.write fd.pos data fd.state
  { fd with pos := fd.pos + answer.moves data.length, state := state }.log (.write fd.pos data)

/-- The bytes that were read, when they are as many as were asked for. -/
def read (length : Nat) (fd : Fd σ) : Option Bytes × Fd σ :=
  let (answer, state) := dev.read fd.pos length fd.state
  let data := match answer with
    | .whole content => some (content.read 0 length)
    | .short _ => none
  (data, { fd with pos := fd.pos + answer.moves length, state := state }.log (.read fd.pos length data))

/-- `lseek(fd, pos, SEEK_SET) != pos || write(fd, data, size) != size`. -/
def writeAt (pos : Nat) (data : Bytes) (fd : Fd σ) : Fd σ :=
  let (ok, fd) := fd.seek dev pos
  if ok then fd.write dev data else fd

/-- `lseek(fd, pos, SEEK_SET) != pos || read(fd, data, size) != size`; then it is `none`. -/
def readAt (pos length : Nat) (fd : Fd σ) : Option Bytes × Fd σ :=
  let (ok, fd) := fd.seek dev pos
  if ok then fd.read dev length else (none, fd)

def eccGetStats (fd : Fd σ) : Option Nat × Fd σ :=
  let (failed, state) := dev.eccGetStats fd.state
  (failed, { fd with state := state })

def close (fd : Fd σ) : Bool × Fd σ :=
  let (ok, state) := dev.close fd.state
  (ok, { fd with state := state })

end Fd

/-! ## Reading -/

/-- `MtdReadContext`, less the partition. -/
structure ReadContext (σ : Type) where
  fd : Fd σ
  buffer : Bytes
  consumed : Nat

section
variable (dev : Driver σ) (part : MtdPartition)

/-- `mtd_read_partition`, once the device is open. -/
def readPartition (state : σ) : ReadContext σ where
  fd := ⟨0, state, []⟩
  buffer := List.replicate part.eraseSize 0
  consumed := part.eraseSize

section
variable (size : Int) (readAt : Nat → Fd σ → Option Bytes × Fd σ)

/-- The loop of `read_block`, for a block of `size` bytes that `readAt` reads. A turn moves `pos` by
at least one, so that as many turns as the partition has bytes are enough fuel. -/
def readBlockFromBy : (fuel pos before : Nat) → Fd σ → Option Bytes × Fd σ
  | 0, _, _, fd => (none, fd)
  | fuel + 1, pos, before, fd =>
    if pos + size ≤ asInt32 part.size then
      match readAt pos fd with
      | (none, fd) => readBlockFromBy fuel (pos + part.eraseSize) before fd
      | (some data, fd) =>
        match fd.eccGetStats dev with
        | (none, fd) => (none, fd)
        | (some after, fd) =>
          if after ≠ before then readBlockFromBy fuel (pos + part.eraseSize) after fd
          else
            let (answer, fd) := fd.getBadBlock dev pos
            if answer ≠ .good then readBlockFromBy fuel (pos + part.eraseSize) before fd
            else (some data, fd)
    else (none, fd)

/-- `read_block`, for a block of `size` bytes that `readAt` reads: the block that was read, or `none`
for -1. That `lseek64` returns the position is not checked, and taken for granted. -/
def readBlockBy (fd : Fd σ) : Option Bytes × Fd σ :=
  match fd.eccGetStats dev with
  | (none, fd) => (none, fd)
  | (some before, fd) => readBlockFromBy dev part size readAt part.size fd.pos before fd

end

/-- The loop of `read_block` with sizes that nothing bounds. -/
def readBlockFrom (fuel pos before : Nat) (fd : Fd σ) : Option Bytes × Fd σ :=
  readBlockFromBy dev part part.eraseSize (fun pos fd => fd.readAt dev pos part.eraseSize) fuel pos before fd

/-- `read_block`. -/
def readBlock (fd : Fd σ) : Option Bytes × Fd σ :=
  readBlockBy dev part part.eraseSize (fun pos fd => fd.readAt dev pos part.eraseSize) fd

theorem readBlockFrom_zero (pos before : Nat) (fd : Fd σ) : readBlockFrom dev part 0 pos before fd = (none, fd) := rfl

theorem readBlockFrom_succ (fuel pos before : Nat) (fd : Fd σ) :
    readBlockFrom dev part (fuel + 1) pos before fd =
      if (pos + part.eraseSize : Int) ≤ asInt32 part.size then
        match fd.readAt dev pos part.eraseSize with
        | (none, fd) => readBlockFrom dev part fuel (pos + part.eraseSize) before fd
        | (some data, fd) =>
          match fd.eccGetStats dev with
          | (none, fd) => (none, fd)
          | (some after, fd) =>
            if after ≠ before then readBlockFrom dev part fuel (pos + part.eraseSize) after fd
            else
              let (answer, fd) := fd.getBadBlock dev pos
              if answer ≠ .good then readBlockFrom dev part fuel (pos + part.eraseSize) before fd
              else (some data, fd)
      else (none, fd) := rfl

end

section
variable (part : MtdPartition)

/-- The part of `mtd_read_data` that copies what is left in the buffer of the context. -/
def copyAvailable (len : Nat) (data : Bytes) (ctx : ReadContext σ) : Bytes × ReadContext σ :=
  if ctx.consumed < part.eraseSize then
    let avail := part.eraseSize - ctx.consumed
    let copy := min (len - data.length) avail
    (data ++ (ctx.buffer.drop ctx.consumed).take copy, { ctx with consumed := ctx.consumed + copy })
  else (data, ctx)

section
variable (readBlock : Fd σ → Option Bytes × Fd σ)

/-- The loop of `mtd_read_data` that reads complete blocks into the buffer of the caller. -/
def readWholeBlocksBy (len : Nat) :
    (fuel : Nat) → (data : Bytes) → ReadContext σ → Option Bytes × ReadContext σ
  | 0, data, ctx => (some data, ctx)
  | fuel + 1, data, ctx =>
    if ctx.consumed = part.eraseSize ∧ len - data.length ≥ part.eraseSize then
      match readBlock ctx.fd with
      | (none, fd) => (none, { ctx with fd := fd })
      | (some block, fd) => readWholeBlocksBy len fuel (data ++ block) { ctx with fd := fd }
    else (some data, ctx)

/-- The loop of `mtd_read_data`. At most every other turn moves no byte. -/
def readDataFromBy (len : Nat) :
    (fuel : Nat) → (data : Bytes) → ReadContext σ → Option Bytes × ReadContext σ
  | 0, data, ctx => (some data, ctx)
  | fuel + 1, data, ctx =>
    if (data.length : Int) < asInt32 len then
      let (data, ctx) := copyAvailable part len data ctx
      match readWholeBlocksBy part readBlock len len data ctx with
      | (none, ctx) => (none, ctx)
      | (some data, ctx) =>
        if data.length ≥ len then (some data, ctx)
        else if ctx.consumed = part.eraseSize ∧ (data.length : Int) < asInt32 len then
          match readBlock ctx.fd with
          | (none, fd) => (none, { ctx with fd := fd })
          | (some block, fd) => readDataFromBy len fuel data ⟨fd, block, 0⟩
        else readDataFromBy len fuel data ctx
    else (some data, ctx)

/-- `mtd_read_data`, over any `read_block`: the bytes that were read, whose number is returned,
or `none` for -1. -/
def readDataBy (len : Nat) (ctx : ReadContext σ) : Option Bytes × ReadContext σ :=
  readDataFromBy part readBlock len (2 * len + 1) [] ctx

end
end

/-- `mtd_read_data`. -/
def readData (dev : Driver σ) (part : MtdPartition) (len : Nat) (ctx : ReadContext σ) :
    Option Bytes × ReadContext σ :=
  readDataBy part (readBlock dev part) len ctx

/-! ## Writing -/

/-- `MtdWriteContext`, less the partition and the buffer. -/
structure BlockWriter (σ : Type) where
  fd : Fd σ
  /-- The first `bad_block_count` entries of `bad_block_offsets`. -/
  badBlockOffsets : List Nat
  badBlockAlloc : Nat

/-- `MtdWriteContext`, less the partition. -/
abbrev WriteContext (σ : Type) := Chunks.Context (BlockWriter σ)

/-- `add_bad_block_offset`. -/
def BlockWriter.addBadBlockOffset (pos : Nat) (w : BlockWriter σ) : BlockWriter σ :=
  { w with
    badBlockAlloc :=
      if w.badBlockOffsets.length + 1 > w.badBlockAlloc then w.badBlockAlloc * 2 + 1 else w.badBlockAlloc
    badBlockOffsets := w.badBlockOffsets ++ [pos] }

/-- How `write_block` computes with its `off_t`. -/
structure Positions where
  /-- `pos + size <= (int) partition->size`. -/
  fits : Nat → Prop
  [decidable : DecidablePred fits]
  /-- `pos + partition->erase_size`. -/
  next : Nat → Nat

attribute [instance] Positions.decidable

/-- The sums of an `off_t` that holds them all. -/
def Positions.unbounded (part : MtdPartition) : Positions where
  fits pos := (pos + part.eraseSize : Int) ≤ asInt32 part.size
  next pos := pos + part.eraseSize

section
variable (dev : Driver σ) (part : MtdPartition)

/-- `mtd_write_partition`, once the device is open. -/
def writePartition (state : σ) : WriteContext σ where
  writer := ⟨⟨0, state, []⟩, [], 0⟩
  buffer := []

/-- One turn of the retry loop of `write_block`: whether the block was verified. -/
def tryBlock (pos : Nat) (data : Bytes) (fd : Fd σ) : Bool × Fd σ :=
  let (erased, fd) := fd.erase dev pos part.eraseSize
  if !erased then (false, fd)
  else
    -- a write error is reported, but the turn goes on
    let fd := fd.writeAt dev pos data
    match fd.readAt dev pos part.eraseSize with
    | (none, fd) => (false, fd)
    | (some verify, fd) => (decide (data = verify), fd)

/-- The retry loop of `write_block`. -/
def retryBlock (pos : Nat) (data : Bytes) : (turns : Nat) → Fd σ → Bool × Fd σ
  | 0, fd => (false, fd)
  | turns + 1, fd =>
    match tryBlock dev part pos data fd with
    | (true, fd) => (true, fd.log (.wroteBlock pos))
    | (false, fd) => retryBlock pos data turns fd

/-- The outer loop of `write_block`. Where `pos` grows by at least one in each turn, `size + 1`
turns are enough fuel; one whose positions wrap around may take longer, or not end, and is cut off. -/
def writeBlockFromBy (positions : Positions) (data : Bytes) :
    (fuel pos : Nat) → BlockWriter σ → Int × BlockWriter σ
  | 0, _, w => (-1, w)
  | fuel + 1, pos, w =>
    if positions.fits pos then
      let (answer, fd) := w.fd.getBadBlock dev pos
      let w := { w with fd := fd }
      if answer ≠ .good ∧ answer ≠ .unsupported then
        writeBlockFromBy positions data fuel (positions.next pos) (w.addBadBlockOffset pos)
      else
        match retryBlock dev part pos data 2 w.fd with
        | (true, fd) => (0, { w with fd := fd })
        | (false, fd) =>
          -- give up on this block
          let w := { w with fd := fd }.addBadBlockOffset pos
          let (_, fd) := w.fd.erase dev pos part.eraseSize
          writeBlockFromBy positions data fuel (positions.next pos) { w with fd := fd }
    else (-1, w)

/-- `write_block`, over any arithmetic of positions. -/
def writeBlockBy (positions : Positions) (data : Bytes) (w : BlockWriter σ) : Int × BlockWriter σ :=
  let (ok, fd) := w.fd.tell dev
  let w := { w with fd := fd }
  if !ok then (1, w) else writeBlockFromBy dev part positions data (part.size + 1) w.fd.pos w

/-- The outer loop of `write_block` with positions that nothing bounds. -/
def writeBlockFrom (data : Bytes) (fuel pos : Nat) (w : BlockWriter σ) : Int × BlockWriter σ :=
  writeBlockFromBy dev part (.unbounded part) data fuel pos w

/-- `write_block`. -/
def writeBlock (data : Bytes) (w : BlockWriter σ) : Int × BlockWriter σ :=
  writeBlockBy dev part (.unbounded part) data w

theorem writeBlockFrom_zero (data : Bytes) (pos : Nat) (w : BlockWriter σ) :
    writeBlockFrom dev part data 0 pos w = (-1, w) := rfl

theorem writeBlockFrom_succ (data : Bytes) (fuel pos : Nat) (w : BlockWriter σ) :
    writeBlockFrom dev part data (fuel + 1) pos w =
      if (pos + part.eraseSize : Int) ≤ asInt32 part.size then
        let (answer, fd) := w.fd.getBadBlock dev pos
        let w := { w with fd := fd }
        if answer ≠ .good ∧ answer ≠ .unsupported then
          writeBlockFrom dev part data fuel (pos + part.eraseSize) (w.addBadBlockOffset pos)
        else
          match retryBlock dev part pos data 2 w.fd with
          | (true, fd) => (0, { w with fd := fd })
          | (false, fd) =>
            let w := { w with fd := fd }.addBadBlockOffset pos
            let (_, fd) := w.fd.erase dev pos part.eraseSize
            writeBlockFrom dev part data fuel (pos + part.eraseSize) { w with fd := fd }
      else (-1, w) := rfl

/-- The loop of `mtd_erase_blocks`. -/
def eraseBlocksFrom : (blocks pos : Nat) → Fd σ → Nat × Fd σ
  | 0, pos, fd => (pos, fd)
  | blocks + 1, pos, fd =>
    let (answer, fd) := fd.getBadBlock dev pos
    if answer = .bad then eraseBlocksFrom blocks (pos + part.eraseSize) fd
    else
      -- a failed erase is only reported
      let (_, fd) := fd.erase dev pos part.eraseSize
      eraseBlocksFrom blocks (pos + part.eraseSize) fd

end

section
variable (dev : Driver σ) (part : MtdPartition) (writeBlock : Bytes → BlockWriter σ → Int × BlockWriter σ)

/-- `mtd_write_data`, over any `write_block`. It ends on every context whose buffer does not hold
more than a block. -/
def writeDataBy (data : Bytes) (ctx : WriteContext σ) : Int × WriteContext σ :=
  (Chunks.writeData writeBlock part.eraseSize data ctx).getD (0, ctx)

/-- The beginning of `mtd_erase_blocks`, which zero-pads and writes pending data. -/
def flushPendingBy (ctx : WriteContext σ) : Int × WriteContext σ :=
  if ctx.stored > 0 then
    let zeros := part.eraseSize - ctx.stored
    let (ret, w) := writeBlock (ctx.buffer ++ List.replicate zeros 0) ctx.writer
    if ret ≠ 0 then (-1, { ctx with writer := w }) else (0, ⟨w, []⟩)
  else (0, ctx)

/-- `mtd_erase_blocks`, over any `write_block`. -/
def eraseBlocksBy (blocks : Int) (ctx : WriteContext σ) : Int × WriteContext σ :=
  let (ret, ctx) := flushPendingBy part writeBlock ctx
  if ret ≠ 0 then (-1, ctx)
  else
    let (ok, fd) := ctx.writer.fd.tell dev
    let ctx := { ctx with writer.fd := fd }
    if !ok then (-1, ctx)
    else
      -- the difference is an `unsigned int`, the quotient goes into an `int`
      let total := asInt32 ((((part.size : Int) - fd.pos) % 2 ^ 32).toNat / part.eraseSize)
      let blocks := if blocks < 0 then total else blocks
      if blocks > total then (-1, ctx)
      else
        let (pos, fd) := eraseBlocksFrom dev part blocks.toNat fd.pos fd
        (pos, { ctx with writer.fd := fd })

/-- `mtd_write_close`, over any `write_block`. -/
def writeCloseBy (ctx : WriteContext σ) : Int × WriteContext σ :=
  let (erased, ctx) := eraseBlocksBy dev part writeBlock 0 ctx
  let (closed, fd) := ctx.writer.fd.close dev
  (if erased = -1 ∨ closed = false then -1 else 0, { ctx with writer.fd := fd })

end

section
variable (dev : Driver σ) (part : MtdPartition)

/-- `mtd_write_data`. -/
def writeData (data : Bytes) (ctx : WriteContext σ) : Int × WriteContext σ :=
  writeDataBy part (writeBlock dev part) data ctx

/-- `mtd_erase_blocks`. -/
def eraseBlocks (blocks : Int) (ctx : WriteContext σ) : Int × WriteContext σ :=
  eraseBlocksBy dev part (writeBlock dev part) blocks ctx

/-- `mtd_write_close`. -/
def writeClose (ctx : WriteContext σ) : Int × WriteContext σ :=
  writeCloseBy dev part (writeBlock dev part) ctx

end
end Mtd
end LinuxOta
