-- SUMMARY: On any driver, `mtd_write_data` and `mtd_read_data` hand on a stream block by block, however it is cut into calls.
import LinuxOta.Base.Blocks
import LinuxOta.Flash.MtdChunks
import LinuxOta.Flash.MtdFlash
import Mathlib.Algebra.GroupWithZero.Nat

namespace LinuxOta.Mtd

/-! # Streams of blocks -/

variable {σ : Type} (dev : Driver σ) (part : MtdPartition)

/-! ## Writing -/

section
variable (writeBlock : Bytes → BlockWriter σ → Int × BlockWriter σ)

/-- The writer after `write_block` has stored the blocks `bs`, or `none` when it fails on one
of them. -/
def writeBlocks (bs : List Bytes) (w : BlockWriter σ) :
    Option (BlockWriter σ) :=
  bs.foldlM (fun w b => if (writeBlock b w).1 = 0 then some (writeBlock b w).2 else none) w

@[simp] theorem writeBlocks_nil (w : BlockWriter σ) : writeBlocks writeBlock [] w = some w := rfl

variable {writeBlock} in
theorem writeBlocks_cons_of_fails {b : Bytes} {bs : List Bytes} {w : BlockWriter σ}
    (h : (writeBlock b w).1 ≠ 0) : writeBlocks writeBlock (b :: bs) w = none := by
  simp [writeBlocks, List.foldlM_cons, h]

variable {writeBlock} in
theorem writeBlocks_cons {b : Bytes} {bs : List Bytes} {w : BlockWriter σ}
    (h : (writeBlock b w).1 = 0) :
    writeBlocks writeBlock (b :: bs) w = writeBlocks writeBlock bs (writeBlock b w).2 := by
  simp [writeBlocks, List.foldlM_cons, h]

theorem writeBlocks_append (bs bs' : List Bytes) (w : BlockWriter σ) :
    writeBlocks writeBlock (bs ++ bs') w = (writeBlocks writeBlock bs w).bind (writeBlocks writeBlock bs') := by
  rw [writeBlocks, List.foldlM_append]
  rfl

/-- A call with result `r` has handed on the blocks `bs`: it fails when one of them does, and
is done with the writer they leave. -/
def Hands (bs : List Bytes) (w : BlockWriter σ) {α : Type}
    (failed : α → Prop) (r : α) (done : BlockWriter σ → α) : Prop :=
  match writeBlocks writeBlock bs w with
  | some w' => r = done w'
  | none => failed r

theorem writeBlocks_eq_handOver (bs : List Bytes) (w : BlockWriter σ) :
    writeBlocks writeBlock bs w =
      if (Chunks.handOver writeBlock bs w).1 then some (Chunks.handOver writeBlock bs w).2 else none := by
  induction bs generalizing w with
  | nil => rfl
  | cons b bs ih =>
    by_cases hret : (writeBlock b w).1 = 0
    · rw [writeBlocks_cons hret, Chunks.handOver_cons hret, ih]
    · rw [writeBlocks_cons_of_fails hret, Chunks.handOver_cons_of_fails hret]
      rfl

variable {writeBlock} in
theorem handOver_of_writeBlocks {bs : List Bytes} {w w' : BlockWriter σ}
    (h : writeBlocks writeBlock bs w = some w') : Chunks.handOver writeBlock bs w = (true, w') := by
  rw [writeBlocks_eq_handOver] at h
  generalize Chunks.handOver writeBlock bs w = r at h
  obtain ⟨ok, w''⟩ := r
  cases ok with
  | true => exact congrArg (Prod.mk true) (Option.some.inj h)
  | false => cases h

/-- A call hands over the complete blocks of what was stored and its own bytes. -/
theorem writeDataBy_eq (data : Bytes) (w : BlockWriter σ) {buffer : Bytes}
    (hbuffer : buffer.length < part.eraseSize) :
    match Chunks.handOver writeBlock (Blocks.whole part.eraseSize (buffer ++ data)) w with
    | (true, w') => writeDataBy part writeBlock data ⟨w, buffer⟩ =
        ((data.length : Int), ⟨w', Blocks.rest part.eraseSize (buffer ++ data)⟩)
    | (false, w') => (writeDataBy part writeBlock data ⟨w, buffer⟩).1 = -1 ∧
        (writeDataBy part writeBlock data ⟨w, buffer⟩).2.writer = w' := by
  have hgives := Chunks.writeData_gives writeBlock data part.eraseSize_pos w (Nat.le_of_lt hbuffer)
    fun h => absurd h (Nat.ne_of_lt hbuffer)
  rw [Chunks.Gives] at hgives
  rw [writeDataBy]
  generalize Chunks.handOver writeBlock (Blocks.whole part.eraseSize (buffer ++ data)) w = h at hgives
  obtain ⟨ok, w'⟩ := h
  cases ok with
  | true =>
    dsimp only at hgives ⊢
    rw [hgives, Option.getD_some]
  | false =>
    obtain ⟨buffer', -, heq⟩ := hgives
    dsimp only
    rw [heq]
    exact ⟨rfl, rfl⟩

/-- A call for one block. -/
theorem writeDataBy_block {data : Bytes} (hdata : data.length = part.eraseSize) {w : BlockWriter σ}
    (hret : (writeBlock data w).1 = 0) :
    writeDataBy part writeBlock data ⟨w, []⟩ = ((data.length : Int), ⟨(writeBlock data w).2, []⟩) := by
  have hpos := part.eraseSize_pos
  have hempty : ([] : Bytes).length < part.eraseSize := hpos
  have hcall := writeDataBy_eq part writeBlock data w hempty
  rw [List.nil_append, Blocks.whole_block hpos hdata, Blocks.rest_block hpos hdata,
    Chunks.handOver_cons hret] at hcall
  exact hcall

/-- A call hands on the complete blocks of what was stored and its own bytes, and stores the
rest. -/
theorem writeDataBy_hands (data : Bytes) (w : BlockWriter σ) {buffer : Bytes}
    (hbuffer : buffer.length < part.eraseSize) :
    Hands writeBlock (Blocks.whole part.eraseSize (buffer ++ data)) w (fun r => r.1 = -1)
      (writeDataBy part writeBlock data ⟨w, buffer⟩)
      fun w' => ((data.length : Int), ⟨w', Blocks.rest part.eraseSize (buffer ++ data)⟩) := by
  have hcall := writeDataBy_eq part writeBlock data w hbuffer
  rw [Hands, writeBlocks_eq_handOver]
  generalize Chunks.handOver writeBlock (Blocks.whole part.eraseSize (buffer ++ data)) w = h at hcall
  obtain ⟨ok, w'⟩ := h
  cases ok with
  | true => exact hcall
  | false => exact hcall.1

/-- The values a sequence of calls returns, and the context after it. -/
def writeCallsBy : List Bytes → WriteContext σ → List Int × WriteContext σ
  | [], ctx => ([], ctx)
  | data :: rest, ctx =>
    let (ret, ctx) := writeDataBy part writeBlock data ctx
    let (rets, ctx) := writeCallsBy rest ctx
    (ret :: rets, ctx)

/-- However a string is cut into calls, its complete blocks are handed on. -/
theorem writeCallsBy_hands (calls : List Bytes) :
    ∀ (w : BlockWriter σ) (buffer : Bytes), buffer.length < part.eraseSize →
      Hands writeBlock (Blocks.whole part.eraseSize (buffer ++ calls.flatten)) w (fun r => -1 ∈ r.1)
        (writeCallsBy part writeBlock calls ⟨w, buffer⟩)
        fun w' => (calls.map fun data => (data.length : Int),
          ⟨w', Blocks.rest part.eraseSize (buffer ++ calls.flatten)⟩) := by
  have hpos := part.eraseSize_pos
  induction calls with
  | nil =>
    intro w buffer hbuffer
    simp [Hands, writeCallsBy, Blocks.whole_of_lt hbuffer, Blocks.rest_of_lt hbuffer]
  | cons data calls ih =>
    intro w buffer hbuffer
    have hcall := writeDataBy_hands part writeBlock data w hbuffer
    rw [Hands] at hcall
    rw [Hands, List.flatten_cons, ← List.append_assoc, Blocks.whole_append hpos,
      Blocks.rest_append hpos (buffer ++ data), writeBlocks_append, writeCallsBy]
    cases hblocks : writeBlocks writeBlock (Blocks.whole part.eraseSize (buffer ++ data)) w with
    | none =>
      rw [hblocks] at hcall
      simp only [Option.bind_none, List.mem_cons]
      exact .inl hcall.symm
    | some w' =>
      rw [hblocks] at hcall
      have hrest :=
        ih w' (Blocks.rest part.eraseSize (buffer ++ data)) (Blocks.rest_length_lt hpos _)
      rw [Hands] at hrest
      dsimp only at hcall
      simp only [Option.bind_some, hcall, List.map_cons]
      cases hblocks' : writeBlocks writeBlock
          (Blocks.whole part.eraseSize (Blocks.rest part.eraseSize (buffer ++ data) ++ calls.flatten)) w' with
      | none =>
        rw [hblocks'] at hrest
        exact List.mem_cons_of_mem _ hrest
      | some w'' =>
        rw [hblocks'] at hrest
        simp only [hrest]

/-- Closing pads what is stored and hands it on. -/
theorem flushPendingBy_hands (w : BlockWriter σ) {buffer : Bytes}
    (hbuffer : buffer.length < part.eraseSize) :
    Hands writeBlock (Blocks.padded part.eraseSize 0 buffer) w (fun r => r.1 = -1)
      (flushPendingBy part writeBlock ⟨w, buffer⟩) fun w' => (0, ⟨w', []⟩) := by
  rw [Hands, Blocks.padded, Blocks.whole_of_lt hbuffer, Blocks.rest_of_lt hbuffer, List.nil_append,
    flushPendingBy]
  by_cases hnil : buffer = []
  · simp [hnil, Chunks.Context.stored]
  have hstored : (⟨w, buffer⟩ : WriteContext σ).stored > 0 :=
    List.length_pos_iff.mpr hnil
  rw [if_neg hnil, if_pos hstored]
  dsimp only [Chunks.Context.stored]
  by_cases hret : (writeBlock (buffer ++ List.replicate (part.eraseSize - buffer.length) 0) w).1 = 0
  · rw [writeBlocks_cons hret, if_neg (by simpa using hret), writeBlocks_nil]
  · rw [writeBlocks_cons_of_fails hret, if_pos hret]

/-- Calls and the flush at the close hand on all blocks of the string. -/
theorem writeCallsBy_flushPendingBy (calls : List Bytes) (w : BlockWriter σ) :
    let r := writeCallsBy part writeBlock calls ⟨w, []⟩
    match writeBlocks writeBlock (Blocks.padded part.eraseSize 0 calls.flatten) w with
    | some w' => r.1 = calls.map (fun data => (data.length : Int)) ∧
      flushPendingBy part writeBlock r.2 = (0, ⟨w', []⟩)
    | none => -1 ∈ r.1 ∨ (flushPendingBy part writeBlock r.2).1 = -1 := by
  have hpos := part.eraseSize_pos
  have hcalls := writeCallsBy_hands part writeBlock calls w [] hpos
  rw [Hands, List.nil_append] at hcalls
  rw [Blocks.padded_eq_append hpos, writeBlocks_append]
  cases hwhole : writeBlocks writeBlock (Blocks.whole part.eraseSize calls.flatten) w with
  | none =>
    rw [hwhole] at hcalls
    exact .inl hcalls
  | some w' =>
    rw [hwhole] at hcalls
    dsimp only at hcalls
    have hflush := flushPendingBy_hands part writeBlock w' (Blocks.rest_length_lt hpos calls.flatten)
    rw [Hands] at hflush
    rw [hcalls, Option.bind_some]
    cases hpadded : writeBlocks writeBlock
        (Blocks.padded part.eraseSize 0 (Blocks.rest part.eraseSize calls.flatten)) w' with
    | none =>
      rw [hpadded] at hflush
      exact .inr hflush
    | some w'' =>
      rw [hpadded] at hflush
      exact ⟨rfl, hflush⟩

/-- The values that the calls on a fresh context and its close return, and the context
afterwards. -/
def writeAllBy (calls : List Bytes) (state : σ) : List Int × WriteContext σ :=
  let (rets, ctx) := writeCallsBy part writeBlock calls (writePartition state)
  let (ret, ctx) := writeCloseBy dev part writeBlock ctx
  (rets ++ [ret], ctx)

end

/-- `writeCallsBy` over `write_block`. -/
def writeCalls (calls : List Bytes) (ctx : WriteContext σ) : List Int × WriteContext σ :=
  writeCallsBy part (writeBlock dev part) calls ctx

/-- `writeAllBy` over `write_block`. -/
def writeAll (calls : List Bytes) (state : σ) : List Int × WriteContext σ :=
  writeAllBy dev part (writeBlock dev part) calls state

theorem writeAll_singleton (data : Bytes) (state : σ) :
    writeAll dev part [data] state =
      let (ret, ctx) := writeData dev part data (writePartition state)
      let (ret', ctx) := writeClose dev part ctx
      ([ret, ret'], ctx) := rfl

/-! ## Reading -/

/-- The next `k` blocks, or `none` when `read_block` fails before. -/
def readBlocks : (k : Nat) → Fd σ → Option (List Bytes × Fd σ)
  | 0, fd => some ([], fd)
  | k + 1, fd =>
    match readBlock dev part fd with
    | (none, _) => none
    | (some block, fd) => (readBlocks k fd).map fun (blocks, fd) => (block :: blocks, fd)

theorem read_length {length : Nat} {fd : Fd σ} {block : Bytes}
    (h : (fd.read dev length).1 = some block) :
    block.length = length := by
  cases hread : (dev.read fd.pos length fd.state).1 with
  | whole content =>
    obtain rfl : content.read 0 length = block := by simpa [Fd.read, hread] using h
    exact content.read_length 0 length
  | short moved => simp [Fd.read, hread] at h

theorem readAt_length {pos length : Nat} {fd : Fd σ} {block : Bytes}
    (h : (fd.readAt dev pos length).1 = some block) : block.length = length := by
  rw [Fd.readAt] at h
  cases hok : (fd.seek dev pos).1 with
  | false => simp [hok] at h
  | true =>
    simp only [hok, ↓reduceIte] at h
    exact read_length dev h

theorem readBlockFrom_length :
    ∀ (fuel pos before : Nat) (fd : Fd σ), ∀ block ∈ (readBlockFrom dev part fuel pos before fd).1,
      block.length = part.eraseSize := by
  intro fuel
  induction fuel with
  | zero => exact fun pos before fd block hblock => by simp [readBlockFrom_zero] at hblock
  | succ fuel ih =>
    intro pos before fd block hblock
    rw [readBlockFrom_succ] at hblock
    split at hblock
    swap
    · simp at hblock
    have hread : ∀ block, (fd.readAt dev pos part.eraseSize).1 =
        some block → block.length = part.eraseSize :=
      fun _ => readAt_length dev
    generalize fd.readAt dev pos part.eraseSize = r at hblock hread
    obtain ⟨data, fd₁⟩ := r
    cases data with
    | none => exact ih _ _ _ block hblock
    | some data =>
      dsimp only at hblock
      generalize fd₁.eccGetStats dev = r at hblock
      obtain ⟨after, fd₂⟩ := r
      cases after with
      | none => simp at hblock
      | some after =>
        dsimp only at hblock
        split at hblock
        · exact ih _ _ _ block hblock
        generalize fd₂.getBadBlock dev pos = r at hblock
        obtain ⟨answer, fd₃⟩ := r
        dsimp only at hblock
        split at hblock
        · exact ih _ _ _ block hblock
        · exact hread block hblock

theorem readBlock_length {fd : Fd σ} {block : Bytes} (h : (readBlock dev part fd).1 = some block) :
    block.length = part.eraseSize := by
  rw [readBlock, readBlockBy] at h
  generalize fd.eccGetStats dev = r at h
  obtain ⟨before, fd₁⟩ := r
  cases before with
  | none => simp at h
  | some before => exact readBlockFrom_length dev part _ _ _ _ block h

theorem readBlocks_succ_of_fails {fd : Fd σ} (h : (readBlock dev part fd).1 = none) (k : Nat) :
    readBlocks dev part (k + 1) fd = none := by
  rw [readBlocks]
  generalize readBlock dev part fd = r at h
  obtain ⟨block, fd'⟩ := r
  obtain rfl : block = none := h
  rfl

theorem readBlocks_succ {fd : Fd σ} {block : Bytes} (h : (readBlock dev part fd).1 = some block)
    (k : Nat) :
    readBlocks dev part (k + 1) fd = (readBlocks dev part k (readBlock dev part fd).2).map
      fun (blocks, fd) => (block :: blocks, fd) := by
  rw [readBlocks]
  generalize readBlock dev part fd = r at h
  obtain ⟨block', fd'⟩ := r
  obtain rfl : block' = some block := h
  rfl

theorem readBlocks_add (a b : Nat) :
    ∀ fd : Fd σ, readBlocks dev part (a + b) fd = (readBlocks dev part a fd).bind fun (blocks, fd') =>
      (readBlocks dev part b fd').map fun (blocks', fd'') => (blocks ++ blocks', fd'') := by
  induction a with
  | zero =>
    intro fd
    rw [Nat.zero_add, readBlocks, Option.bind_some]
    cases h : readBlocks dev part b fd <;> simp [h]
  | succ a ih =>
    intro fd
    rw [Nat.succ_add]
    cases hblock : (readBlock dev part fd).1 with
    | none =>
      rw [readBlocks_succ_of_fails dev part hblock, readBlocks_succ_of_fails dev part hblock,
        Option.bind_none]
    | some block =>
      rw [readBlocks_succ dev part hblock, readBlocks_succ dev part hblock, ih]
      cases readBlocks dev part a (readBlock dev part fd).2 with
      | none => rfl
      | some r => cases h : readBlocks dev part b r.2 <;> simp [h]

theorem readBlocks_flatten_length {k : Nat} :
    ∀ {fd fd' : Fd σ} {blocks : List Bytes}, readBlocks dev part k fd = some (blocks, fd') →
      blocks.flatten.length = k * part.eraseSize := by
  induction k with
  | zero =>
    intro fd fd' blocks h
    obtain ⟨rfl, rfl⟩ : [] = blocks ∧ fd = fd' := by simpa [readBlocks] using h
    simp
  | succ k ih =>
    intro fd fd' blocks h
    cases hblock : (readBlock dev part fd).1 with
    | none => simp [readBlocks_succ_of_fails dev part hblock] at h
    | some block =>
      rw [readBlocks_succ dev part hblock, Option.map_eq_some_iff] at h
      obtain ⟨⟨rest, fd''⟩, hrest, heq⟩ := h
      obtain ⟨rfl, rfl⟩ : block :: rest = blocks ∧ fd'' = fd' := by simpa using heq
      rw [List.flatten_cons, List.length_append, readBlock_length dev part hblock, ih hrest,
        Nat.succ_mul, Nat.add_comm]

/-- Complete blocks are read one after the other. -/
theorem readWholeBlocks_reads (len : Nat) :
    ∀ (fuel : Nat) (data : Bytes) (ctx : ReadContext σ),
      ctx.consumed = part.eraseSize → len - data.length ≤ fuel →
      match readBlocks dev part ((len - data.length) / part.eraseSize) ctx.fd with
      | some (blocks, fd) =>
        readWholeBlocksBy part (readBlock dev part) len fuel data ctx = (some (data ++ blocks.flatten), { ctx with fd := fd })
      | none => (readWholeBlocksBy part (readBlock dev part) len fuel data ctx).1 = none := by
  have hpos := part.eraseSize_pos
  intro fuel
  induction fuel with
  | zero =>
    intro data ctx hconsumed hfuel
    simp [Nat.eq_zero_of_le_zero hfuel, readBlocks, readWholeBlocksBy]
  | succ fuel ih =>
    intro data ctx hconsumed hfuel
    rw [readWholeBlocksBy]
    rcases Nat.lt_or_ge (len - data.length) part.eraseSize with hlt | hge
    · rw [if_neg fun h => Nat.not_le.mpr hlt h.2, Nat.div_eq_of_lt hlt]
      simp [readBlocks]
    rw [if_pos ⟨hconsumed, hge⟩, Nat.div_eq_sub_div hpos hge]
    cases hblock : (readBlock dev part ctx.fd).1 with
    | none =>
      rw [readBlocks_succ_of_fails dev part hblock]
      generalize readBlock dev part ctx.fd = r at hblock
      obtain ⟨block, fd⟩ := r
      obtain rfl : block = none := hblock
      rfl
    | some block =>
      have hlen := readBlock_length dev part hblock
      have hrest := ih (data ++ block) { ctx with fd := (readBlock dev part ctx.fd).2 } hconsumed
        (by rw [List.length_append]; omega)
      rw [List.length_append, hlen, ← Nat.sub_sub] at hrest
      rw [readBlocks_succ dev part hblock]
      generalize readBlock dev part ctx.fd = r at hblock hrest
      obtain ⟨block', fd⟩ := r
      obtain rfl : block' = some block := hblock
      cases hblocks : readBlocks dev part ((len - data.length - part.eraseSize) / part.eraseSize) fd with
      | none =>
        rw [hblocks] at hrest
        exact hrest
      | some r =>
        rw [hblocks] at hrest
        simpa using hrest

/-- The descriptor of a context, and what is left in its buffer. -/
structure Pending (ctx : ReadContext σ) (fd : Fd σ) (bytes : Bytes) : Prop where
  fd_eq : ctx.fd = fd
  buffer_length : ctx.buffer.length = part.eraseSize
  consumed_le : ctx.consumed ≤ part.eraseSize
  drop_eq : ctx.buffer.drop ctx.consumed = bytes

variable {part}

theorem Pending.length {ctx : ReadContext σ} {fd : Fd σ} {bytes : Bytes}
    (h : Pending part ctx fd bytes) :
    bytes.length = part.eraseSize - ctx.consumed := by
  rw [← h.drop_eq, List.length_drop, h.buffer_length]

theorem pending_readPartition (state : σ) :
    Pending part (readPartition part state) ⟨0, state, []⟩ [] where
  fd_eq := rfl
  buffer_length := List.length_replicate
  consumed_le := Nat.le_refl _
  drop_eq := List.drop_of_length_le (Nat.le_of_eq List.length_replicate)

/-- What is left is copied as far as it is asked for. -/
theorem copyAvailable_pending {ctx : ReadContext σ} {fd : Fd σ} {bytes : Bytes}
    (h : Pending part ctx fd bytes) (len : Nat) (data : Bytes) :
    (copyAvailable part len data ctx).1 = data ++ bytes.take (len - data.length) ∧
      Pending part (copyAvailable part len data ctx).2 fd (bytes.drop (len - data.length)) := by
  have hlen := h.length
  have hle := h.consumed_le
  rw [copyAvailable]
  split
  · have htake : bytes.take (min (len - data.length) (part.eraseSize - ctx.consumed)) =
        bytes.take (len - data.length) := by
      rw [← hlen, ← List.take_take, List.take_length]
    have hdrop : bytes.drop (min (len - data.length) (part.eraseSize - ctx.consumed)) =
        bytes.drop (len - data.length) := by
      rcases Nat.le_total (len - data.length) (part.eraseSize - ctx.consumed) with hmin | hmin
      · rw [Nat.min_eq_left hmin]
      · rw [Nat.min_eq_right hmin, List.drop_of_length_le (Nat.le_of_eq hlen),
          List.drop_of_length_le (by omega)]
    refine ⟨by simp only [h.drop_eq, htake], h.fd_eq, h.buffer_length, ?_, ?_⟩
    · dsimp only
      omega
    · rw [← List.drop_drop, h.drop_eq, hdrop]
  · obtain rfl : bytes = [] := List.length_eq_zero_iff.mp (by omega)
    simpa using h

theorem readDataFrom_done {len : Nat} (hlen : len < 2 ^ 31) {data : Bytes} (h : len ≤ data.length)
    (fuel : Nat) (ctx : ReadContext σ) :
    readDataFromBy part (readBlock dev part) len fuel data ctx = (some data, ctx) := by
  cases fuel with
  | zero => rfl
  | succ fuel => rw [readDataFromBy, asInt32_of_lt hlen, if_neg (by omega)]

/-- The last turn only copies. -/
theorem readDataFrom_last {len : Nat} (hlen : len < 2 ^ 31) {ctx : ReadContext σ} {fd : Fd σ}
    {bytes : Bytes} (h : Pending part ctx fd bytes) (data : Bytes) (hle : data.length ≤ len)
    (hbytes : len - data.length ≤ bytes.length) (fuel : Nat) :
    (readDataFromBy part (readBlock dev part) len (fuel + 1) data ctx).1 = some (data ++ bytes.take (len - data.length)) ∧
      Pending part (readDataFromBy part (readBlock dev part) len (fuel + 1) data ctx).2 fd (bytes.drop (len - data.length)) := by
  have hpos := part.eraseSize_pos
  rcases Nat.eq_or_lt_of_le hle with heq | hlt
  · rw [readDataFrom_done dev hlen (by omega), heq, Nat.sub_self]
    exact ⟨by simp, by simpa using h⟩
  obtain ⟨hdata, hpending⟩ := copyAvailable_pending h len data
  have hcopied : (data ++ bytes.take (len - data.length)).length = len := by
    rw [List.length_append, List.length_take]
    omega
  rw [readDataFromBy, asInt32_of_lt hlen, if_pos (by omega)]
  generalize copyAvailable part len data ctx = r at hdata hpending
  obtain ⟨data₁, ctx₁⟩ := r
  obtain rfl : data₁ = data ++ bytes.take (len - data.length) := hdata
  have hwhole : readWholeBlocksBy part (readBlock dev part) len len (data ++ bytes.take (len - data.length)) ctx₁ =
      (some (data ++ bytes.take (len - data.length)), ctx₁) := by
    cases len with
    | zero => rfl
    | succ n => rw [readWholeBlocksBy, if_neg (by omega)]
  dsimp only
  rw [hwhole]
  dsimp only
  rw [if_pos (by omega)]
  exact ⟨rfl, hpending⟩

/-- A call that needs more than what is left takes all of it, and empties the buffer. -/
theorem copyAvailable_short {len : Nat} {ctx : ReadContext σ} {fd : Fd σ} {bytes : Bytes}
    (h : Pending part ctx fd bytes) (hlong : bytes.length < len) :
    ∃ ctx', copyAvailable part len [] ctx = (bytes, ctx') ∧ Pending part ctx' fd [] ∧
      ctx'.consumed = part.eraseSize := by
  obtain ⟨hdata, hpending⟩ := copyAvailable_pending h len []
  rw [List.nil_append, List.length_nil, Nat.sub_zero,
    List.take_of_length_le (Nat.le_of_lt hlong)] at hdata
  rw [List.length_nil, Nat.sub_zero, List.drop_of_length_le (Nat.le_of_lt hlong)] at hpending
  refine ⟨(copyAvailable part len [] ctx).2, Prod.ext hdata rfl, hpending, ?_⟩
  have hnil := hpending.length
  have hle := hpending.consumed_le
  rw [List.length_nil] at hnil
  omega

/-- The turn after a block was read into the buffer. -/
theorem readDataFrom_refilled {len : Nat} (hlen : len < 2 ^ 31) {fd : Fd σ} {block : Bytes}
    (hblock : block.length = part.eraseSize) {data : Bytes} (hle : data.length ≤ len)
    (hrest : len - data.length ≤ part.eraseSize) (fuel : Nat) :
    (readDataFromBy part (readBlock dev part) len (fuel + 1) data ⟨fd, block, 0⟩).1 = some ((data ++ block).take len) ∧
      Pending part (readDataFromBy part (readBlock dev part) len (fuel + 1) data ⟨fd, block, 0⟩).2 fd
        ((data ++ block).drop len) := by
  have hbuffer : Pending part ⟨fd, block, 0⟩ fd block := ⟨rfl, hblock, Nat.zero_le _, rfl⟩
  have htake : (data ++ block).take len = data ++ block.take (len - data.length) := by
    rw [List.take_append, List.take_of_length_le hle]
  have hdrop : (data ++ block).drop len = block.drop (len - data.length) := by
    rw [List.drop_append, List.drop_of_length_le hle, List.nil_append]
  rw [htake, hdrop]
  exact readDataFrom_last dev hlen hbuffer data hle (by omega) fuel

/-- A call reads as many blocks as it needs, takes its bytes from what was left and these,
and leaves the rest. -/
theorem readData_reads {len : Nat} (hlen : len < 2 ^ 31) {ctx : ReadContext σ} {fd : Fd σ}
    {bytes : Bytes} (h : Pending part ctx fd bytes) :
    match readBlocks dev part (Blocks.count part.eraseSize (len - bytes.length)) fd with
    | some (blocks, fd') => (readData dev part len ctx).1 = some ((bytes ++ blocks.flatten).take len) ∧
      Pending part (readData dev part len ctx).2 fd' ((bytes ++ blocks.flatten).drop len)
    | none => (readData dev part len ctx).1 = none := by
  have hpos := part.eraseSize_pos
  rw [readData, readDataBy]
  rcases Nat.lt_or_ge bytes.length len with hlong | hshort
  swap
  · have hlast := readDataFrom_last dev hlen h [] (Nat.zero_le len) hshort (2 * len)
    simpa [Nat.sub_eq_zero_of_le hshort, hpos, readBlocks] using hlast
  obtain ⟨ctx₁, hcopy, hpending, hconsumed⟩ := copyAvailable_short h hlong
  rw [readDataFromBy, asInt32_of_lt hlen, if_pos (by simp only [List.length_nil]; omega), hcopy]
  -- the buffer is empty now, so that complete blocks are read
  have hwhole := readWholeBlocks_reads dev part len len bytes ctx₁ hconsumed (Nat.sub_le _ _)
  have hdiv := Nat.div_add_mod (len - bytes.length) part.eraseSize
  rw [Nat.mul_comm] at hdiv
  rw [hpending.fd_eq] at hwhole
  rw [Blocks.count_eq hpos, readBlocks_add]
  dsimp only
  cases hblocks : readBlocks dev part ((len - bytes.length) / part.eraseSize) fd with
  | none =>
    rw [hblocks] at hwhole
    dsimp only at hwhole
    generalize readWholeBlocksBy part (readBlock dev part) len len bytes ctx₁ = r at hwhole
    obtain ⟨data₂, ctx₂⟩ := r
    obtain rfl : data₂ = none := hwhole
    rfl
  | some r =>
    obtain ⟨blocks, fd₂⟩ := r
    have hflat := readBlocks_flatten_length dev part hblocks
    rw [hblocks] at hwhole
    dsimp only at hwhole
    rw [hwhole, Option.bind_some]
    dsimp only
    by_cases hmod : (len - bytes.length) % part.eraseSize = 0
    · have hall : (bytes ++ blocks.flatten).length = len := by
        rw [List.length_append]
        omega
      rw [if_pos hmod]
      simp only [readBlocks, Option.map_some, List.append_nil]
      rw [if_pos (by omega), List.take_of_length_le (Nat.le_of_eq hall),
        List.drop_of_length_le (Nat.le_of_eq hall)]
      exact ⟨rfl, rfl, hpending.buffer_length, hpending.consumed_le, hpending.drop_eq⟩
    · have hmodlt := Nat.mod_lt (len - bytes.length) hpos
      have hrest :
          (bytes ++ blocks.flatten).length + (len - bytes.length) % part.eraseSize = len := by
        rw [List.length_append]
        omega
      rw [if_neg hmod, if_neg (by omega), if_pos ⟨hconsumed, by omega⟩]
      cases hblock : (readBlock dev part fd₂).1 with
      | none =>
        rw [readBlocks_succ_of_fails dev part hblock]
        generalize readBlock dev part fd₂ = r at hblock
        obtain ⟨block, fd₃⟩ := r
        obtain rfl : block = none := hblock
        rfl
      | some block =>
        have hblockLen := readBlock_length dev part hblock
        rw [readBlocks_succ dev part hblock]
        generalize readBlock dev part fd₂ = r at hblock
        obtain ⟨block', fd₃⟩ := r
        obtain rfl : block' = some block := hblock
        obtain ⟨fuel, hfuel⟩ : ∃ fuel, 2 * len = fuel + 1 := ⟨2 * len - 1, by omega⟩
        simp only [readBlocks, Option.map_some, hfuel, List.flatten_append, List.flatten_singleton,
          ← List.append_assoc]
        exact readDataFrom_refilled dev hlen hblockLen (by omega) (by omega) fuel

/-- What a sequence of calls reads, over any `read_block`, and the context after it. -/
def readCallsBy (part : MtdPartition) (readBlock : Fd σ → Option Bytes × Fd σ) :
    List Nat → ReadContext σ → List (Option Bytes) × ReadContext σ
  | [], ctx => ([], ctx)
  | len :: rest, ctx =>
    let (data, ctx) := readDataBy part readBlock len ctx
    let (results, ctx) := readCallsBy part readBlock rest ctx
    (data :: results, ctx)

variable (part) in
/-- `readCallsBy` over `read_block`. -/
def readCalls (lens : List Nat) (ctx : ReadContext σ) : List (Option Bytes) × ReadContext σ :=
  readCallsBy part (readBlock dev part) lens ctx

@[simp] theorem readCalls_nil (ctx : ReadContext σ) : readCalls dev part [] ctx = ([], ctx) := rfl

theorem readCalls_cons (len : Nat) (rest : List Nat) (ctx : ReadContext σ) :
    readCalls dev part (len :: rest) ctx =
      let (data, ctx) := readData dev part len ctx
      let (results, ctx) := readCalls dev part rest ctx
      (data :: results, ctx) := rfl

/-- However the number of bytes is split into calls, what they read are the bytes of the next
blocks. -/
theorem readCalls_reads (lens : List Nat) :
    ∀ {ctx : ReadContext σ} {fd : Fd σ} {bytes : Bytes}, (∀ len ∈ lens, len < 2 ^ 31) →
      Pending part ctx fd bytes →
      match readBlocks dev part (Blocks.count part.eraseSize (lens.sum - bytes.length)) fd with
      | some (blocks, _) => ∃ pieces : List Bytes, (readCalls dev part lens ctx).1 = pieces.map some ∧
        pieces.map List.length = lens ∧ pieces.flatten = (bytes ++ blocks.flatten).take lens.sum
      | none => none ∈ (readCalls dev part lens ctx).1 := by
  have hpos := part.eraseSize_pos
  induction lens with
  | nil =>
    intro ctx fd bytes _ _
    simp only [List.sum_nil, Nat.zero_sub, Blocks.count_zero hpos, readBlocks]
    exact ⟨[], by simp⟩
  | cons len lens ih =>
    intro ctx fd bytes hlens h
    have hcall := readData_reads dev (hlens len List.mem_cons_self) h
    rw [List.sum_cons, Blocks.count_add hpos, readBlocks_add, readCalls_cons]
    cases hblocks : readBlocks dev part (Blocks.count part.eraseSize (len - bytes.length)) fd with
    | none =>
      rw [hblocks] at hcall
      dsimp only at hcall ⊢
      rw [hcall]
      exact List.mem_cons_self
    | some r =>
      obtain ⟨blocks, fd'⟩ := r
      rw [hblocks] at hcall
      obtain ⟨hdata, hpending⟩ := hcall
      have henough := (Blocks.count_le_iff hpos).mp (Nat.le_refl (Blocks.count part.eraseSize (len - bytes.length)))
      have hall : (bytes ++ blocks.flatten).length =
          bytes.length + Blocks.count part.eraseSize (len - bytes.length) * part.eraseSize := by
        rw [List.length_append, readBlocks_flatten_length dev part hblocks]
      have hrest := ih (fun l hl => hlens l (List.mem_cons_of_mem _ hl)) hpending
      rw [List.length_drop, hall] at hrest
      simp only [Option.bind_some, hdata]
      cases hblocks' : readBlocks dev part (Blocks.count part.eraseSize (lens.sum - (bytes.length +
          Blocks.count part.eraseSize (len - bytes.length) * part.eraseSize - len))) fd' with
      | none =>
        rw [hblocks'] at hrest
        exact List.mem_cons_of_mem _ hrest
      | some r =>
        obtain ⟨blocks', fd''⟩ := r
        rw [hblocks'] at hrest
        obtain ⟨pieces, hresults, hlengths, hflatten⟩ := hrest
        have hlen : len ≤ (bytes ++ blocks.flatten).length := by omega
        refine ⟨(bytes ++ blocks.flatten).take len :: pieces, ?_, ?_, ?_⟩
        · rw [hresults, List.map_cons]
        · rw [List.map_cons, hlengths, List.length_take, Nat.min_eq_left hlen]
        · rw [List.flatten_cons, hflatten, List.flatten_append, ← List.append_assoc, List.take_add,
            List.take_append_of_le_length hlen, List.drop_append_of_le_length hlen]

end LinuxOta.Mtd
