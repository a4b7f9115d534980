-- SUMMARY: `mtd_write_data` over any `write_block`: which blocks it hands over, however the data are cut into chunks.
import LinuxOta.Base.Blocks
import LinuxOta.Base.Bytes
import Mathlib.Algebra.GroupWithZero.Nat

namespace LinuxOta.Mtd.Chunks

/-! # Chunks

`mtd_write_data` as in `mtd_flash.c`, with `write_block` as an argument. The loops give
`none` when they run out of fuel, so that a result says that they end. -/

/-- `MtdWriteContext`: what `write_block` works on, and the first `stored` bytes of the
buffer. -/
structure Context (ω : Type) where
  writer : ω
  buffer : Bytes

/-- `stored`. -/
def Context.stored {ω : Type} (ctx : Context ω) : Nat := ctx.buffer.length

section
variable {ω : Type} (writeBlock : Bytes → ω → Int × ω) (eraseSize : Nat)

/-- The loop of `mtd_write_data` that writes complete blocks from the buffer of the caller:
how much is written afterwards, or `none` for -1. -/
def writeWholeBlocks (data : Bytes) :
    (fuel wrote : Nat) → Context ω → Option (Option Nat × Context ω)
  | 0, _, _ => none
  | fuel + 1, wrote, ctx =>
    if ctx.stored = 0 ∧ data.length - wrote ≥ eraseSize then
      let (ret, w) := writeBlock ((data.drop wrote).take eraseSize) ctx.writer
      let ctx := { ctx with writer := w }
      if ret ≠ 0 then some (none, ctx) else writeWholeBlocks data fuel (wrote + eraseSize) ctx
    else some (some wrote, ctx)

/-- "Coalesce partial writes into complete blocks": how much is written afterwards, counting
what is stored. -/
def coalesce (data : Bytes) (wrote : Nat) (ctx : Context ω) : Nat × Context ω :=
  if ctx.stored > 0 ∨ data.length - wrote < eraseSize then
    let avail := eraseSize - ctx.stored
    let copy := min (data.length - wrote) avail
    (wrote + copy, { ctx with buffer := ctx.buffer ++ (data.drop wrote).take copy })
  else (wrote, ctx)

/-- "If a complete block was accumulated, write it". -/
def writeAccumulated (ctx : Context ω) : Int × Context ω :=
  if ctx.stored = eraseSize then
    let (ret, w) := writeBlock ctx.buffer ctx.writer
    if ret ≠ 0 then (-1, { ctx with writer := w }) else (0, ⟨w, []⟩)
  else (0, ctx)

/-- The loop of `mtd_write_data`. -/
def writeDataFrom (data : Bytes) : (fuel wrote : Nat) → Context ω → Option (Int × Context ω)
  | 0, _, _ => none
  | fuel + 1, wrote, ctx =>
    if wrote < data.length then
      let (wrote, ctx) := coalesce eraseSize data wrote ctx
      let (ret, ctx) := writeAccumulated writeBlock eraseSize ctx
      if ret ≠ 0 then some (-1, ctx)
      else
        match writeWholeBlocks writeBlock eraseSize data (data.length + 1) wrote ctx with
        | none => none
        | some (none, ctx) => some (-1, ctx)
        | some (some wrote, ctx) => writeDataFrom data fuel wrote ctx
    else some (wrote, ctx)

/-- `mtd_write_data`. -/
def writeData (data : Bytes) (ctx : Context ω) : Option (Int × Context ω) :=
  writeDataFrom writeBlock eraseSize data (data.length + 2) 0 ctx

/-- Successive calls of `mtd_write_data`: what each returns, and the context after it. -/
def runCalls : List Bytes → Context ω → Option (List (Int × Context ω))
  | [], _ => some []
  | data :: rest, ctx =>
    match writeData writeBlock eraseSize data ctx with
    | none => none
    | some r => (runCalls rest r.2).map (r :: ·)

/-! ## The blocks handed over -/

/-- Blocks are handed to `write_block` one after the other, up to the first that fails: whether
none did, and what it works on afterwards. -/
def handOver : List Bytes → ω → Bool × ω
  | [], w => (true, w)
  | b :: bs, w =>
    if (writeBlock b w).1 ≠ 0 then (false, (writeBlock b w).2) else handOver bs (writeBlock b w).2

@[simp] theorem handOver_nil (w : ω) : handOver writeBlock [] w = (true, w) := rfl

variable {writeBlock}

theorem handOver_cons {b : Bytes} {w : ω} (h : (writeBlock b w).1 = 0) (bs : List Bytes) :
    handOver writeBlock (b :: bs) w = handOver writeBlock bs (writeBlock b w).2 := by
  rw [handOver, if_neg (not_not_intro h)]

theorem handOver_cons_of_fails {b : Bytes} {w : ω} (h : (writeBlock b w).1 ≠ 0) (bs : List Bytes) :
    handOver writeBlock (b :: bs) w = (false, (writeBlock b w).2) := by
  rw [handOver, if_pos h]

variable {eraseSize}

/-- A call that ends with `o` has handed over the blocks `bs`. If none of them failed it
returned `n`, and the bytes `rest` are stored. -/
def Gives (writeBlock : Bytes → ω → Int × ω) (eraseSize : Nat) (bs : List Bytes) (w : ω) (n : Nat)
    (rest : Bytes) (o : Option (Int × Context ω)) : Prop :=
  match handOver writeBlock bs w with
  | (true, w') => o = some ((n : Int), ⟨w', rest⟩)
  | (false, w') => ∃ buffer, buffer.length ≤ eraseSize ∧ o = some (-1, ⟨w', buffer⟩)

variable (writeBlock) in
/-- The complete blocks behind `wrote` are handed over. -/
theorem writeWholeBlocks_eq (hpos : 0 < eraseSize) (data : Bytes) :
    ∀ (fuel wrote : Nat) (w : ω), data.length - wrote < fuel →
      writeWholeBlocks writeBlock eraseSize data fuel wrote ⟨w, []⟩ =
        match handOver writeBlock (Blocks.whole eraseSize (data.drop wrote)) w with
        | (true, w') =>
          some (some (wrote + (data.length - wrote) / eraseSize * eraseSize), ⟨w', []⟩)
        | (false, w') => some (none, ⟨w', []⟩) := by
  intro fuel
  induction fuel with
  | zero => exact fun wrote w hfuel => absurd hfuel (Nat.not_lt_zero _)
  | succ fuel ih =>
    intro wrote w hfuel
    rcases Nat.lt_or_ge (data.length - wrote) eraseSize with hlt | hge
    · have hlen : (data.drop wrote).length < eraseSize := by simpa using hlt
      rw [writeWholeBlocks, if_neg fun h => Nat.not_le.mpr hlt h.2, Blocks.whole_of_lt hlen,
        Nat.div_eq_of_lt hlt]
      simp
    have hlen : eraseSize ≤ (data.drop wrote).length := by simpa using hge
    have hdiv : (data.length - wrote) / eraseSize * eraseSize =
        eraseSize + (data.length - (wrote + eraseSize)) / eraseSize * eraseSize := by
      rw [Nat.div_eq_sub_div hpos hge, Nat.sub_sub, Nat.add_mul, Nat.one_mul, Nat.add_comm]
    have hstored : Context.stored (⟨w, []⟩ : Context ω) = 0 := rfl
    rw [writeWholeBlocks, if_pos ⟨hstored, hge⟩, Blocks.whole_of_le hpos hlen]
    dsimp only
    by_cases hret : (writeBlock ((data.drop wrote).take eraseSize) w).1 = 0
    · rw [handOver_cons hret, if_neg (not_not_intro hret), ih _ _ (by omega), List.drop_drop, hdiv,
        Nat.add_assoc]
    · rw [handOver_cons_of_fails hret, if_pos hret]

theorem writeWholeBlocks_of_stored {data : Bytes} {ctx : Context ω} (h : ctx.stored ≠ 0)
    (fuel wrote : Nat) :
    writeWholeBlocks writeBlock eraseSize data (fuel + 1) wrote ctx = some (some wrote, ctx) := by
  rw [writeWholeBlocks, if_neg fun hc => h hc.1]

variable (writeBlock) in
/-- What does not fill a block is stored. -/
theorem writeDataFrom_short {data : Bytes} {fuel wrote : Nat} {w : ω} {buffer : Bytes}
    (hwrote : wrote ≤ data.length) (h : (buffer ++ data.drop wrote).length < eraseSize)
    (hfuel : data.length - wrote < fuel) :
    writeDataFrom writeBlock eraseSize data fuel wrote ⟨w, buffer⟩ =
      some ((data.length : Int), ⟨w, buffer ++ data.drop wrote⟩) := by
  have hdone : ∀ fuel (ctx : Context ω),
      writeDataFrom writeBlock eraseSize data (fuel + 1) data.length ctx =
        some ((data.length : Int), ctx) :=
    fun fuel ctx => if_neg (Nat.lt_irrefl _)
  obtain ⟨fuel, rfl⟩ : ∃ k, fuel = k + 1 := ⟨fuel - 1, by omega⟩
  rcases Nat.eq_or_lt_of_le hwrote with rfl | hlt
  · rw [hdone, List.drop_length, List.append_nil]
  have hlen : buffer.length + (data.length - wrote) < eraseSize := by simpa using h
  have hcopy : min (data.length - wrote) (eraseSize - buffer.length) = data.length - wrote := by omega
  have htake : (data.drop wrote).take (data.length - wrote) = data.drop wrote :=
    List.take_of_length_le (by simp)
  have hcoalesce : coalesce eraseSize data wrote (⟨w, buffer⟩ : Context ω) =
      (data.length, ⟨w, buffer ++ data.drop wrote⟩) := by
    rw [coalesce, if_pos (.inr (by omega))]
    simp only [Context.stored, hcopy, htake]
    congr 1
    omega
  have hstored : (⟨w, buffer ++ data.drop wrote⟩ : Context ω).stored =
      buffer.length + (data.length - wrote) := by
    simp [Context.stored]
  have hkept : writeAccumulated writeBlock eraseSize (⟨w, buffer ++ data.drop wrote⟩ : Context ω) =
      (0, ⟨w, buffer ++ data.drop wrote⟩) := by
    rw [writeAccumulated, if_neg (by omega)]
  obtain ⟨fuel, rfl⟩ : ∃ k, fuel = k + 1 := ⟨fuel - 1, by omega⟩
  have hnone : writeWholeBlocks writeBlock eraseSize data (data.length + 1) data.length
      ⟨w, buffer ++ data.drop wrote⟩ = some (some data.length, ⟨w, buffer ++ data.drop wrote⟩) :=
    writeWholeBlocks_of_stored (by omega) _ _
  rw [writeDataFrom, if_pos hlt, hcoalesce]
  simp only [hkept, ne_eq, not_true_eq_false, ↓reduceIte, hnone, hdone]

/-- A turn that leaves nothing stored before it gets to the complete blocks. -/
theorem writeDataFrom_turn {data : Bytes} {fuel wrote wrote' : Nat} {ctx ctx' : Context ω} {w : ω}
    (hpos : 0 < eraseSize) (h : wrote < data.length)
    (hcoalesce : coalesce eraseSize data wrote ctx = (wrote', ctx'))
    (hfull : writeAccumulated writeBlock eraseSize ctx' = (0, ⟨w, []⟩)) (hwrote : wrote' ≤ data.length)
    (hfuel : (data.length - wrote') % eraseSize < fuel) :
    Gives writeBlock eraseSize (Blocks.whole eraseSize (data.drop wrote')) w data.length
      (Blocks.rest eraseSize (data.drop wrote'))
      (writeDataFrom writeBlock eraseSize data (fuel + 1) wrote ctx) := by
  have hwhole := writeWholeBlocks_eq writeBlock hpos data (data.length + 1) wrote' w
    (by omega)
  have hle := Nat.div_mul_le_self (data.length - wrote') eraseSize
  have hmod := Nat.div_add_mod (data.length - wrote') eraseSize
  rw [Nat.mul_comm] at hmod
  have hrest : data.drop (wrote' + (data.length - wrote') / eraseSize * eraseSize) =
      Blocks.rest eraseSize (data.drop wrote') := by
    rw [Blocks.rest, List.drop_drop, List.length_drop]
  have hlt := Blocks.rest_length_lt hpos (data.drop wrote')
  rw [← hrest] at hlt
  rw [writeDataFrom, if_pos h, hcoalesce]
  simp only [hfull, ne_eq, not_true_eq_false, ↓reduceIte, hwhole, Gives]
  cases hblocks : handOver writeBlock (Blocks.whole eraseSize (data.drop wrote')) w with
  | mk ok w' =>
    cases ok with
    | false => exact ⟨[], Nat.zero_le _, rfl⟩
    | true =>
      dsimp only
      rw [writeDataFrom_short writeBlock (by omega) (by simpa using hlt) (by omega), List.nil_append, hrest]

variable (writeBlock) in
theorem writeAccumulated_of_full {w : ω} {b : Bytes} (h : b.length = eraseSize) :
    writeAccumulated writeBlock eraseSize ⟨w, b⟩ =
      if (writeBlock b w).1 ≠ 0 then (-1, ⟨(writeBlock b w).2, b⟩) else (0, ⟨(writeBlock b w).2, []⟩) := by
  have hstored : Context.stored (⟨w, b⟩ : Context ω) = eraseSize := h
  rw [writeAccumulated, if_pos hstored]

variable (writeBlock) in
/-- A call hands over the complete blocks of what was stored and its own bytes, and stores the
rest. After a failure a complete block may be stored: it is handed over again. -/
theorem writeDataFrom_gives (data : Bytes) {buffer : Bytes} {fuel : Nat} (hpos : 0 < eraseSize) (w : ω)
    (hbuffer : buffer.length ≤ eraseSize) (hdata : buffer.length = eraseSize → data ≠ [])
    (hfuel : data.length < fuel) (hfuel' : buffer.length = eraseSize → data.length + 1 < fuel) :
    Gives writeBlock eraseSize (Blocks.whole eraseSize (buffer ++ data)) w data.length
      (Blocks.rest eraseSize (buffer ++ data))
      (writeDataFrom writeBlock eraseSize data fuel 0 ⟨w, buffer⟩) := by
  rcases Nat.lt_or_ge (buffer ++ data).length eraseSize with hshort | hlong
  · -- everything is stored
    have hcall := writeDataFrom_short writeBlock (w := w) (Nat.zero_le data.length)
      (by simpa using hshort) hfuel
    rw [List.drop_zero] at hcall
    simp only [Gives, Blocks.whole_of_lt hshort, Blocks.rest_of_lt hshort, handOver_nil, hcall]
  -- a block is completed, from what was stored and the bytes of the call, or from these alone
  rw [List.length_append] at hlong
  have hsome : 0 < data.length := by
    rcases Nat.lt_or_eq_of_le hbuffer with hlt | heq
    · omega
    · exact List.length_pos_iff.mpr (hdata heq)
  obtain ⟨fuel, rfl⟩ : ∃ k, fuel = k + 1 := ⟨fuel - 1, by omega⟩
  rcases Nat.eq_zero_or_pos buffer.length with hnil | hstored
  · obtain rfl : buffer = [] := List.length_eq_zero_iff.mp hnil
    have hcoalesce : coalesce eraseSize data 0 (⟨w, []⟩ : Context ω) = (0, ⟨w, []⟩) := by
      rw [coalesce, if_neg (by simp only [Context.stored, List.length_nil] at *; omega)]
    have hfull : writeAccumulated writeBlock eraseSize (⟨w, []⟩ : Context ω) = (0, ⟨w, []⟩) := by
      rw [writeAccumulated, if_neg (by simp only [Context.stored, List.length_nil]; omega)]
    have hmod := Nat.mod_lt data.length hpos
    exact writeDataFrom_turn hpos hsome hcoalesce hfull (Nat.zero_le _)
      (by rw [List.length_nil] at hlong; rw [Nat.sub_zero]; omega)
  · have hcopy : min (data.length - 0) (eraseSize - buffer.length) = eraseSize - buffer.length := by
      omega
    have hcoalesce : coalesce eraseSize data 0 (⟨w, buffer⟩ : Context ω) =
        (eraseSize - buffer.length, ⟨w, buffer ++ data.take (eraseSize - buffer.length)⟩) := by
      rw [coalesce, if_pos (.inl hstored)]
      simp only [Context.stored, hcopy, List.drop_zero, Nat.zero_add]
    have hblock : buffer ++ data.take (eraseSize - buffer.length) = (buffer ++ data).take eraseSize := by
      rw [List.take_append, List.take_of_length_le hbuffer]
    have hdrop : (buffer ++ data).drop eraseSize = data.drop (eraseSize - buffer.length) := by
      rw [List.drop_append, List.drop_of_length_le hbuffer, List.nil_append]
    have hfullLen : (buffer ++ data.take (eraseSize - buffer.length)).length = eraseSize := by
      rw [hblock, List.length_take, List.length_append]
      omega
    rw [Gives, Blocks.whole_of_le hpos (by simpa using hlong),
      Blocks.rest_of_le hpos (by simpa using hlong), hdrop, ← hblock]
    by_cases hret : (writeBlock (buffer ++ data.take (eraseSize - buffer.length)) w).1 = 0
    · have hfull := writeAccumulated_of_full writeBlock (w := w) hfullLen
      rw [if_neg (not_not_intro hret)] at hfull
      have hmod := Nat.mod_le (data.length - (eraseSize - buffer.length)) eraseSize
      rw [handOver_cons hret]
      exact writeDataFrom_turn hpos hsome hcoalesce hfull (by omega) (by omega)
    · rw [handOver_cons_of_fails hret, writeDataFrom, if_pos hsome, hcoalesce]
      dsimp only
      rw [writeAccumulated_of_full writeBlock hfullLen, if_pos hret]
      exact ⟨_, Nat.le_of_eq hfullLen, rfl⟩

variable (writeBlock) in
/-- Every call ends. -/
theorem writeData_gives (data : Bytes) {buffer : Bytes} (hpos : 0 < eraseSize) (w : ω)
    (hbuffer : buffer.length ≤ eraseSize) (hdata : buffer.length = eraseSize → data ≠ []) :
    Gives writeBlock eraseSize (Blocks.whole eraseSize (buffer ++ data)) w data.length
      (Blocks.rest eraseSize (buffer ++ data)) (writeData writeBlock eraseSize data ⟨w, buffer⟩) :=
  writeDataFrom_gives writeBlock data hpos w hbuffer hdata (by omega) fun _ => by omega

theorem writeData_nil (ctx : Context ω) : writeData writeBlock eraseSize [] ctx = some (0, ctx) := rfl

/-! ## What every block keeps -/

section
variable {P : ω → Prop} (hkeeps : ∀ b w, b.length = eraseSize → P w → P (writeBlock b w).2)

include hkeeps in
theorem handOver_keeps {bs : List Bytes} (hbs : ∀ b ∈ bs, b.length = eraseSize) :
    ∀ {w : ω}, P w → P (handOver writeBlock bs w).2 := by
  induction bs with
  | nil => exact id
  | cons b bs ih =>
    intro w h
    obtain ⟨hb, hbs⟩ := List.forall_mem_cons.mp hbs
    have hblock := hkeeps b w hb h
    by_cases hret : (writeBlock b w).1 = 0
    · rw [handOver_cons hret]
      exact ih hbs hblock
    · rw [handOver_cons_of_fails hret]
      exact hblock

include hkeeps in
/-- A call keeps what every block keeps, and stores no more than a block. -/
theorem writeData_keeps (hpos : 0 < eraseSize) (data : Bytes) {ctx : Context ω} (h : P ctx.writer)
    (hstored : ctx.stored ≤ eraseSize) :
    ∃ r, writeData writeBlock eraseSize data ctx = some r ∧ P r.2.writer ∧ r.2.stored ≤ eraseSize := by
  obtain ⟨w, buffer⟩ := ctx
  by_cases hnil : data = []
  · rw [hnil, writeData_nil]
    exact ⟨_, rfl, h, hstored⟩
  have hgives := writeData_gives writeBlock data hpos w hstored fun _ => hnil
  have hwhole := handOver_keeps hkeeps
    (fun b (hb : b ∈ Blocks.whole eraseSize (buffer ++ data)) => Blocks.length_of_mem_whole hpos hb) h
  rw [Gives] at hgives
  generalize handOver writeBlock (Blocks.whole eraseSize (buffer ++ data)) w = o at hgives hwhole
  obtain ⟨ok, w'⟩ := o
  cases ok with
  | true => exact ⟨_, hgives, hwhole, Nat.le_of_lt (Blocks.rest_length_lt hpos _)⟩
  | false =>
    obtain ⟨buffer', hbuffer', heq⟩ := hgives
    exact ⟨_, heq, hwhole, hbuffer'⟩

end

/-! ## Recording what is handed over -/

/-- `write_block`, with each block it is given and what it returns entered in a log. -/
def logged (writeBlock : Bytes → ω → Int × ω) (b : Bytes) (w : ω × List (Bytes × Int)) :
    Int × (ω × List (Bytes × Int)) :=
  ((writeBlock b w.1).1, (writeBlock b w.1).2, w.2 ++ [(b, (writeBlock b w.1).1)])

/-- No block failed. -/
def AllStored (log : List (Bytes × Int)) : Prop := ∀ e ∈ log, e.2 = 0

instance (log : List (Bytes × Int)) : Decidable (AllStored log) :=
  inferInstanceAs (Decidable (∀ e ∈ log, e.2 = 0))

/-- The entries up to the first failure, and with it. -/
def upToFailure (log : List (Bytes × Int)) : List (Bytes × Int) :=
  log.take (log.findIdx (fun e => e.2 ≠ 0) + 1)

theorem upToFailure_of_allStored {log : List (Bytes × Int)} (h : AllStored log) :
    upToFailure log = log := by
  have hidx : log.findIdx (fun e => e.2 ≠ 0) = log.length :=
    List.findIdx_eq_length.mpr fun e he => by simp [h e he]
  rw [upToFailure, hidx, List.take_of_length_le (Nat.le_succ _)]

theorem upToFailure_of_failed {log more : List (Bytes × Int)} (h : AllStored log) {e : Bytes × Int}
    (he : e.2 ≠ 0) : upToFailure (log ++ e :: more) = log ++ [e] := by
  have hidx : (log ++ e :: more).findIdx (fun e => e.2 ≠ 0) = log.length := by
    have hlog : log.findIdx (fun e => e.2 ≠ 0) = log.length :=
      List.findIdx_eq_length.mpr fun e he => by simp [h e he]
    rw [List.findIdx_append, hlog, if_neg (Nat.lt_irrefl _), List.findIdx_cons]
    simp [he]
  rw [upToFailure, hidx, List.take_append, List.take_of_length_le (Nat.le_succ _)]
  simp

variable (writeBlock) in
/-- The blocks `bs`, handed over behind a log: all of them are stored, or one of them is the
first to fail. -/
theorem handOver_logged (bs : List Bytes) :
    ∀ (w : ω) (log : List (Bytes × Int)), ∃ done, AllStored done ∧
      ((handOver (logged writeBlock) bs (w, log)).1 = true ∧ done.map Prod.fst = bs ∧
          (handOver (logged writeBlock) bs (w, log)).2.2 = log ++ done ∨
        (handOver (logged writeBlock) bs (w, log)).1 = false ∧ ∃ e, e.2 ≠ 0 ∧
          (done ++ [e]).map Prod.fst <+: bs ∧
          (handOver (logged writeBlock) bs (w, log)).2.2 = log ++ (done ++ [e])) := by
  induction bs with
  | nil => exact fun w log => ⟨[], by simp [AllStored], .inl ⟨rfl, rfl, (List.append_nil log).symm⟩⟩
  | cons b bs ih =>
    intro w log
    by_cases hret : (writeBlock b w).1 = 0
    · have hcons : handOver (logged writeBlock) (b :: bs) (w, log) =
          handOver (logged writeBlock) bs ((writeBlock b w).2, log ++ [(b, 0)]) := by
        rw [handOver_cons (show (logged writeBlock b (w, log)).1 = 0 from hret), logged, hret]
      obtain ⟨done, hdone, hcases⟩ := ih (writeBlock b w).2 (log ++ [(b, 0)])
      refine ⟨(b, 0) :: done, List.forall_mem_cons.mpr ⟨rfl, hdone⟩, ?_⟩
      rw [hcons]
      rcases hcases with ⟨hok, hmap, hlog⟩ | ⟨hfail, e, he, hprefix, hlog⟩
      · exact .inl ⟨hok, by rw [List.map_cons, hmap], by rw [hlog, List.append_assoc]; rfl⟩
      · refine .inr ⟨hfail, e, he, ?_, by rw [hlog, List.append_assoc]; rfl⟩
        exact (List.prefix_cons_inj b).mpr hprefix
    · have hcons : handOver (logged writeBlock) (b :: bs) (w, log) =
          (false, (writeBlock b w).2, log ++ [(b, (writeBlock b w).1)]) :=
        handOver_cons_of_fails (show (logged writeBlock b (w, log)).1 ≠ 0 from hret) bs
      refine ⟨[], by simp [AllStored], .inr ?_⟩
      rw [hcons]
      exact ⟨rfl, (b, (writeBlock b w).1), hret, by simp, rfl⟩

/-! ## Runs -/

/-- A context after the calls that passed the bytes `xs`: all complete blocks of `xs` were
stored and the rest is in the buffer, or one of the blocks was the first to fail. -/
structure Tracks (eraseSize : Nat) (xs : Bytes) (ctx : Context (ω × List (Bytes × Int))) : Prop where
  stored_le : ctx.stored ≤ eraseSize
  cases : AllStored ctx.writer.2 ∧ ctx.writer.2.map Prod.fst = Blocks.whole eraseSize xs ∧
      ctx.buffer = Blocks.rest eraseSize xs ∨
    ∃ done e more, ctx.writer.2 = done ++ e :: more ∧ AllStored done ∧ e.2 ≠ 0 ∧
      (done ++ [e]).map Prod.fst <+: Blocks.whole eraseSize xs

theorem tracks_fresh (hpos : 0 < eraseSize) (w : ω) :
    Tracks eraseSize [] (⟨(w, []), []⟩ : Context (ω × List (Bytes × Int))) where
  stored_le := Nat.zero_le _
  cases := .inl ⟨by simp [AllStored], by simp [Blocks.whole_of_lt, hpos], by
    simp [Blocks.rest_of_lt, hpos]⟩

variable (writeBlock) in
/-- A call ends, and adds to the log. -/
theorem writeData_logged (hpos : 0 < eraseSize) (data : Bytes) {buffer : Bytes} (hbuffer : buffer.length ≤ eraseSize)
    (hdata : buffer.length = eraseSize → data ≠ []) (w : ω) (log : List (Bytes × Int)) :
    ∃ r done, writeData (logged writeBlock) eraseSize data ⟨(w, log), buffer⟩ = some r ∧
      r.2.stored ≤ eraseSize ∧ AllStored done ∧
      (r.2.writer.2 = log ++ done ∧ done.map Prod.fst = Blocks.whole eraseSize (buffer ++ data) ∧
          r.1 = data.length ∧ r.2.buffer = Blocks.rest eraseSize (buffer ++ data) ∨
        ∃ e, e.2 ≠ 0 ∧ r.2.writer.2 = log ++ (done ++ [e]) ∧
          (done ++ [e]).map Prod.fst <+: Blocks.whole eraseSize (buffer ++ data)) := by
  have hgives := writeData_gives (logged writeBlock) data hpos (w, log) hbuffer hdata
  obtain ⟨done, hdone, hcases⟩ :=
    handOver_logged writeBlock (Blocks.whole eraseSize (buffer ++ data)) w log
  rw [Gives] at hgives
  generalize handOver (logged writeBlock) (Blocks.whole eraseSize (buffer ++ data)) (w, log) = h
    at hgives hcases
  obtain ⟨ok, w'⟩ := h
  cases ok with
  | true =>
    obtain ⟨-, hmap, hlog⟩ := hcases.resolve_right (by simp)
    exact ⟨_, done, hgives, Nat.le_of_lt (Blocks.rest_length_lt hpos _), hdone,
      .inl ⟨hlog, hmap, rfl, rfl⟩⟩
  | false =>
    obtain ⟨-, e, he, hprefix, hlog⟩ := hcases.resolve_left (by simp)
    obtain ⟨buffer', hbuffer', heq⟩ := hgives
    exact ⟨_, done, heq, hbuffer', hdone, .inr ⟨e, he, hlog, hprefix⟩⟩

/-- Complete blocks stay complete blocks when bytes follow. -/
theorem whole_of_append (hpos : 0 < eraseSize) (xs ys : Bytes) :
    Blocks.whole eraseSize xs <+: Blocks.whole eraseSize (xs ++ ys) :=
  ⟨_, (Blocks.whole_append hpos xs ys).symm⟩

variable (writeBlock) in
theorem Tracks.step (hpos : 0 < eraseSize) {xs : Bytes} {ctx : Context (ω × List (Bytes × Int))}
    (h : Tracks eraseSize xs ctx) (data : Bytes) :
    ∃ r, writeData (logged writeBlock) eraseSize data ctx = some r ∧
      Tracks eraseSize (xs ++ data) r.2 ∧ (AllStored r.2.writer.2 → r.1 = data.length) := by
  obtain ⟨⟨w, log⟩, buffer⟩ := ctx
  by_cases hnil : data = []
  · rw [hnil, writeData_nil, List.append_nil]
    exact ⟨_, rfl, h, fun _ => rfl⟩
  have hle : buffer.length ≤ eraseSize := h.stored_le
  obtain ⟨r, done, heq, hstored, hdone, hcases⟩ :=
    writeData_logged writeBlock hpos data hle (fun _ => hnil) w log
  refine ⟨r, heq, ?_⟩
  rcases h.cases with ⟨hlog, hmap, hbuffer⟩ | ⟨done₀, e₀, more, hlog, hdone₀, he₀, hprefix⟩
  · -- no block failed before this call
    dsimp only at hlog hmap hbuffer
    rw [hbuffer] at hcases
    rcases hcases with ⟨hlog', hmap', hret, hrest⟩ | ⟨e, he, hlog', hprefix⟩
    · refine ⟨⟨hstored, .inl ⟨?_, ?_, ?_⟩⟩, fun _ => hret⟩
      · rw [hlog']
        exact List.forall_mem_append.mpr ⟨hlog, hdone⟩
      · rw [hlog', List.map_append, hmap, hmap', ← Blocks.whole_append hpos]
      · rw [hrest, ← Blocks.rest_append hpos]
    · refine ⟨⟨hstored, .inr ⟨log ++ done, e, [], ?_, List.forall_mem_append.mpr ⟨hlog, hdone⟩, he, ?_⟩⟩,
        fun hall => absurd (hall e ?_) he⟩
      · rw [hlog', List.append_assoc]
      · rw [List.append_assoc, List.map_append, hmap, Blocks.whole_append hpos]
        exact (List.prefix_append_right_inj _).mpr hprefix
      · simp [hlog']
  · -- a block had failed, and the log only grows
    obtain ⟨new, hnew⟩ : ∃ new, r.2.writer.2 = log ++ new := by
      rcases hcases with ⟨hlog', -⟩ | ⟨e, -, hlog', -⟩
      · exact ⟨_, hlog'⟩
      · exact ⟨_, hlog'⟩
    have hgrown : r.2.writer.2 = done₀ ++ e₀ :: (more ++ new) := by
      rw [hnew, show log = done₀ ++ e₀ :: more from hlog, List.append_assoc, List.cons_append]
    exact ⟨⟨hstored, .inr ⟨done₀, e₀, more ++ new, hgrown, hdone₀, he₀,
      hprefix.trans (whole_of_append hpos xs data)⟩⟩, fun hall => absurd (hall e₀ (by simp [hgrown])) he₀⟩

/-- What holds after a call that returned `ret`, when `xs` are the bytes of all calls and `data`
those of this one. -/
structure CallSound (eraseSize : Nat) (xs data : Bytes) (ret : Int)
    (ctx : Context (ω × List (Bytes × Int))) : Prop where
  handed : (upToFailure ctx.writer.2).map Prod.fst <+: Blocks.whole eraseSize xs
  stored : AllStored ctx.writer.2 → ctx.writer.2.map Prod.fst = Blocks.whole eraseSize xs ∧
    ret = data.length ∧ ctx.stored = xs.length % eraseSize ∧ ctx.stored < eraseSize ∧
    ctx.buffer = Blocks.rest eraseSize xs

theorem Tracks.callSound (hpos : 0 < eraseSize) {xs data : Bytes} {ret : Int}
    {ctx : Context (ω × List (Bytes × Int))} (h : Tracks eraseSize xs ctx)
    (hret : AllStored ctx.writer.2 → ret = data.length) : CallSound eraseSize xs data ret ctx := by
  rcases h.cases with ⟨hlog, hmap, hbuffer⟩ | ⟨done, e, more, hlog, hdone, he, hprefix⟩
  · refine ⟨?_, fun _ => ⟨hmap, hret hlog, ?_, ?_, hbuffer⟩⟩
    · have hall : (upToFailure ctx.writer.2).map Prod.fst = Blocks.whole eraseSize xs := by
        rw [upToFailure_of_allStored hlog, hmap]
      exact ⟨[], by rw [hall, List.append_nil]⟩
    · rw [Context.stored, hbuffer, Blocks.rest_length]
    · rw [Context.stored, hbuffer]
      exact Blocks.rest_length_lt hpos xs
  · refine ⟨?_, fun hall => absurd (hall e (by simp [hlog])) he⟩
    rw [hlog, upToFailure_of_failed hdone he]
    exact hprefix

variable (writeBlock) in
theorem Tracks.run (hpos : 0 < eraseSize) (chunks : List Bytes) :
    ∀ {xs : Bytes} {ctx : Context (ω × List (Bytes × Int))}, Tracks eraseSize xs ctx →
      ∃ rs, runCalls (logged writeBlock) eraseSize chunks ctx = some rs ∧ rs.length = chunks.length ∧
        ∀ i data r, chunks[i]? = some data → rs[i]? = some r →
          CallSound eraseSize (xs ++ (chunks.take (i + 1)).flatten) data r.1 r.2 := by
  induction chunks with
  | nil => exact fun _ => ⟨[], rfl, rfl, fun i data r hdata => by simp at hdata⟩
  | cons data chunks ih =>
    intro xs ctx h
    obtain ⟨r, heq, htracks, hret⟩ := h.step writeBlock hpos data
    obtain ⟨rs, hrs, hlen, hall⟩ := ih htracks
    refine ⟨r :: rs, by simp [runCalls, heq, hrs], by simp [hlen], fun i data' r' hdata' hr' => ?_⟩
    cases i with
    | zero =>
      obtain rfl : data = data' := by simpa using hdata'
      obtain rfl : r = r' := by simpa using hr'
      simpa using htracks.callSound hpos hret
    | succ i =>
      have hsound := hall i data' r' (by simpa using hdata') (by simpa using hr')
      rwa [List.append_assoc, ← List.flatten_cons, ← List.take_succ_cons] at hsound

variable (writeBlock) in
/-- However data are cut into chunks: every call of `mtd_write_data` ends. After each of them
the blocks given to `write_block`, up to the first that failed, are the first complete blocks
of all bytes so far. If none failed, these are all complete blocks, the call returned the
length of its chunk, and what is left is in the buffer. -/
theorem chunk_independence (hpos : 0 < eraseSize) (w : ω) (chunks : List Bytes) :
    ∃ rs, runCalls (logged writeBlock) eraseSize chunks ⟨(w, []), []⟩ = some rs ∧
      rs.length = chunks.length ∧
      ∀ i data r, chunks[i]? = some data → rs[i]? = some r →
        CallSound eraseSize (chunks.take (i + 1)).flatten data r.1 r.2 := by
  simpa using (tracks_fresh hpos w).run writeBlock hpos chunks

theorem chunk_independence_splits :
    ∃ rs, runCalls (logged fun _ w => (0, w)) 2 [[1], [], [2, 3, 4]] ⟨((), []), []⟩ = some rs ∧
      rs.length = 3 ∧
      ∀ i data r, [[1], [], [2, 3, 4]][i]? = some data → rs[i]? = some r →
        CallSound 2 (([[1], [], [2, 3, 4]] : List Bytes).take (i + 1)).flatten data r.1 r.2 :=
  chunk_independence (fun _ w => (0, w)) (by decide) () [[1], [], [2, 3, 4]]

end
end LinuxOta.Mtd.Chunks
