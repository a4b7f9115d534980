-- SUMMARY: Whatever the driver answers, a write context of `mtd_flash` never touches a bad block, a byte out of range, or a block it has written.
import LinuxOta.Base.Journal
import LinuxOta.Flash.MtdFlash

namespace LinuxOta.Mtd

/-! # Safety of MTD writes

The target of an erase or write is the file position, which seeks, short
transfers and the verifying reads move. It never falls behind the position at
the last success, and all that is touched lies behind it. -/

/-- The range an event erases or writes, by its start and length. -/
def Event.touches : Event → Option (Nat × Nat)
  | erase start length => some (start, length)
  | write pos data => some (pos, data.length)
  | _ => none

/-- The block an event asks about, and the answer. -/
def Event.query : Event → Option (Nat × BadBlockAnswer)
  | getBadBlock pos answer => some (pos, answer)
  | _ => none

/-- The last `MEMGETBADBLOCK` of a journal. -/
def lastQuery (journal : List Event) : Option (Nat × BadBlockAnswer) :=
  journal.foldl (fun last e => e.query.or last) none

@[simp] theorem lastQuery_append (journal : List Event) (e : Event) :
    lastQuery (journal ++ [e]) = e.query.or (lastQuery journal) := by
  simp [lastQuery]

section
variable (part : MtdPartition) (start : Nat)

/-- It is safe to touch `length` bytes at `pos` after the calls of `journal`, on a descriptor
whose position was `start` at first. -/
structure TouchSafe (journal : List Event) (pos length : Nat) : Prop where
  asked : ∃ answer, lastQuery journal = some (pos, answer) ∧ answer ≠ .bad
  start_le : start ≤ pos
  end_le : pos + length ≤ part.size
  spares : ∀ q, .wroteBlock q ∈ journal → q + part.eraseSize ≤ pos ∨ pos + length ≤ q

/-- What an event touches after the calls of `journal` is safe to touch. -/
def EventSafe (journal : List Event) (e : Event) : Prop :=
  ∀ pos length, e.touches = some (pos, length) → TouchSafe part start journal pos length

/-- Nothing before `low` is touched any more. -/
structure Guarded (low : Nat) {σ : Type} (fd : Fd σ) : Prop where
  start_le : start ≤ low
  low_le : low ≤ fd.pos
  pos_le : fd.pos ≤ part.size
  safe : Journal.Each (EventSafe part start) fd.journal
  wrote : ∀ q, .wroteBlock q ∈ fd.journal → q + part.eraseSize ≤ low

end

/-- The last question on the descriptor was about `pos`, and the block is not bad. -/
def Asked {σ : Type} (fd : Fd σ) (pos : Nat) : Prop :=
  ∃ answer, lastQuery fd.journal = some (pos, answer) ∧ answer ≠ .bad

variable {σ : Type} (dev : Driver σ) {part : MtdPartition} {start low pos : Nat} {fd : Fd σ}

namespace Guarded

theorem raise (h : Guarded part start low fd) : Guarded part start fd.pos fd where
  start_le := h.start_le.trans h.low_le
  low_le := Nat.le_refl _
  pos_le := h.pos_le
  safe := h.safe
  wrote q hq := (h.wrote q hq).trans h.low_le

/-- An event that touches nothing and reports nothing. -/
theorem log_silent (h : Guarded part start low fd) {e : Event} (he : e.touches = none)
    (hwrote : ∀ q, e ≠ .wroteBlock q) : Guarded part start low (fd.log e) where
  start_le := h.start_le
  low_le := h.low_le
  pos_le := h.pos_le
  safe := Journal.each_append_singleton.mpr ⟨h.safe, fun pos length ht => by simp [he] at ht⟩
  wrote q hq := by
    rcases List.mem_append.mp hq with hq | hq
    · exact h.wrote q hq
    · exact absurd (List.mem_singleton.mp hq).symm (hwrote q)

/-- An event that touches a range behind the guard. -/
theorem log_touch (h : Guarded part start low fd) (hasked : Asked fd pos) (hlow : low ≤ pos)
    {length : Nat} (hend : pos + length ≤ part.size) {e : Event} (he : e.touches = some (pos, length)) :
    Guarded part start low (fd.log e) where
  start_le := h.start_le
  low_le := h.low_le
  pos_le := h.pos_le
  safe := by
    refine Journal.each_append_singleton.mpr ⟨h.safe, fun pos' length' ht => ?_⟩
    obtain ⟨rfl, rfl⟩ : pos = pos' ∧ length = length' := by simpa [he] using ht
    exact ⟨hasked, h.start_le.trans hlow, hend, fun q hq => .inl ((h.wrote q hq).trans hlow)⟩
  wrote q hq := by
    rcases List.mem_append.mp hq with hq | hq
    · exact h.wrote q hq
    · obtain rfl := List.mem_singleton.mp hq
      simp [Event.touches] at he

/-- The position moves, but not before the guard. -/
theorem move (h : Guarded part start low fd) {pos : Nat} (state : σ) (hlow : low ≤ pos)
    (hend : pos ≤ part.size) : Guarded part start low { fd with pos := pos, state := state } :=
  ⟨h.start_le, hlow, hend, h.safe, h.wrote⟩

end Guarded

/-- A call that asks nothing. -/
theorem Asked.after {fd' : Fd σ} {e : Event} (h : Asked fd pos)
    (hjournal : fd'.journal = fd.journal ++ [e]) (he : e.query = none) : Asked fd' pos := by
  simpa [Asked, hjournal, he] using h

/-! ## Calls -/

theorem moves_le {α : Type} (length : Nat) (t : Transfer α) : t.moves length ≤ length := by
  cases t with
  | whole => exact Nat.le_refl _
  | short moved => exact Nat.min_le_right _ _

namespace Guarded

theorem tell (h : Guarded part start low fd) : Guarded part start low (fd.tell dev).2 :=
  h.move _ h.low_le h.pos_le

theorem close (h : Guarded part start low fd) : Guarded part start low (fd.close dev).2 :=
  h.move _ h.low_le h.pos_le

theorem seek (h : Guarded part start low fd) (hlow : low ≤ pos) (hend : pos ≤ part.size) :
    Guarded part start low (fd.seek dev pos).2 := by
  cases hok : (dev.seek pos fd.state).1 with
  | true => simpa [Fd.seek, hok] using h.move _ hlow hend
  | false => simpa [Fd.seek, hok] using h.move _ h.low_le h.pos_le

theorem getBadBlock (h : Guarded part start low fd) (pos : Nat) :
    Guarded part start low (fd.getBadBlock dev pos).2 :=
  (h.move (dev.getBadBlock pos fd.state).2 h.low_le h.pos_le).log_silent rfl fun _ => by simp

theorem erase (h : Guarded part start low fd) (hasked : Asked fd pos) (hlow : low ≤ pos)
    {length : Nat} (hend : pos + length ≤ part.size) :
    Guarded part start low (fd.erase dev pos length).2 :=
  (h.move (dev.erase pos length fd.state).2 h.low_le h.pos_le).log_touch hasked hlow hend rfl

theorem write (h : Guarded part start low fd) {data : Bytes} (hasked : Asked fd fd.pos)
    (hend : fd.pos + data.length ≤ part.size) : Guarded part start low (fd.write dev data) := by
  have hmoves := moves_le data.length (dev.write fd.pos data fd.state).1
  have hlow := h.low_le
  have hmoved : Guarded part start low
      ⟨fd.pos + (dev.write fd.pos data fd.state).1.moves data.length, _, fd.journal⟩ :=
    h.move (dev.write fd.pos data fd.state).2 (by omega) (by omega)
  exact hmoved.log_touch hasked hlow hend rfl

theorem read (h : Guarded part start low fd) {length : Nat} (hend : fd.pos + length ≤ part.size) :
    Guarded part start low (fd.read dev length).2 := by
  have hmoves := moves_le length (dev.read fd.pos length fd.state).1
  have hlow := h.low_le
  have hmoved : Guarded part start low
      ⟨fd.pos + (dev.read fd.pos length fd.state).1.moves length, _, fd.journal⟩ :=
    h.move (dev.read fd.pos length fd.state).2 (by omega) (by omega)
  exact hmoved.log_silent rfl fun _ => by simp

end Guarded

theorem seek_pos (h : (fd.seek dev pos).1 = true) : (fd.seek dev pos).2.pos = pos :=
  if_pos h

theorem read_pos {length : Nat} {data : Bytes} (h : (fd.read dev length).1 = some data) :
    (fd.read dev length).2.pos = fd.pos + length := by
  cases hread : (dev.read fd.pos length fd.state).1 with
  | whole content => simp [Fd.read, hread, Transfer.moves]
  | short moved => simp [Fd.read, hread] at h

theorem asked_getBadBlock (h : (fd.getBadBlock dev pos).1 ≠ .bad) :
    Asked (fd.getBadBlock dev pos).2 pos :=
  ⟨(fd.getBadBlock dev pos).1, by simp [Fd.getBadBlock, Event.query], h⟩

theorem Asked.seek (h : Asked fd pos) (pos' : Nat) : Asked (fd.seek dev pos').2 pos := h

theorem Asked.erase (h : Asked fd pos) (start length : Nat) :
    Asked (fd.erase dev start length).2 pos :=
  h.after rfl rfl

theorem Asked.write (h : Asked fd pos) (data : Bytes) : Asked (fd.write dev data) pos :=
  h.after rfl rfl

theorem Asked.read (h : Asked fd pos) (length : Nat) : Asked (fd.read dev length).2 pos :=
  h.after rfl rfl

/-- A block that was asked for, behind the guard and in range, may be worked on. -/
structure Ready (part : MtdPartition) (start low pos : Nat) (fd : Fd σ) : Prop
    extends Guarded part start low fd where
  asked : Asked fd pos
  low_le_block : low ≤ pos
  end_le : pos + part.eraseSize ≤ part.size

namespace Ready

theorem erase (h : Ready part start low pos fd) :
    Ready part start low pos (fd.erase dev pos part.eraseSize).2 where
  toGuarded := h.toGuarded.erase dev h.asked h.low_le_block h.end_le
  asked := h.asked.erase dev _ _
  low_le_block := h.low_le_block
  end_le := h.end_le

theorem seek (h : Ready part start low pos fd) : Ready part start low pos (fd.seek dev pos).2 where
  toGuarded := h.toGuarded.seek dev h.low_le_block ((Nat.le_add_right _ _).trans h.end_le)
  asked := h.asked.seek dev pos
  low_le_block := h.low_le_block
  end_le := h.end_le

theorem writeAt (h : Ready part start low pos fd) {data : Bytes}
    (hdata : data.length = part.eraseSize) :
    Ready part start low pos (fd.writeAt dev pos data) := by
  have hseek := h.seek dev
  rw [Fd.writeAt]
  cases hok : (fd.seek dev pos).1 with
  | false => simpa [hok] using hseek
  | true =>
    have hpos := seek_pos dev hok
    have hasked : Asked (fd.seek dev pos).2 (fd.seek dev pos).2.pos := by
      rw [hpos]
      exact hseek.asked
    have hend : (fd.seek dev pos).2.pos + data.length ≤ part.size := by
      rw [hpos, hdata]
      exact h.end_le
    simp only [hok, ↓reduceIte]
    exact ⟨hseek.toGuarded.write dev hasked hend, hseek.asked.write dev data, h.low_le_block,
      h.end_le⟩

/-- A complete read leaves the position at the end of the block. -/
theorem readAt (h : Ready part start low pos fd) :
    Ready part start low pos (fd.readAt dev pos part.eraseSize).2 ∧
      ∀ data, (fd.readAt dev pos part.eraseSize).1 = some data →
        (fd.readAt dev pos part.eraseSize).2.pos = pos + part.eraseSize := by
  have hseek := h.seek dev
  rw [Fd.readAt]
  cases hok : (fd.seek dev pos).1 with
  | false => exact ⟨by simpa [hok] using hseek, fun data hdata => by simp [hok] at hdata⟩
  | true =>
    have hpos := seek_pos dev hok
    have hend : (fd.seek dev pos).2.pos + part.eraseSize ≤ part.size := by
      rw [hpos]
      exact h.end_le
    simp only [hok, ↓reduceIte]
    refine ⟨⟨hseek.toGuarded.read dev hend, hseek.asked.read dev _, h.low_le_block, h.end_le⟩,
      fun data hdata => ?_⟩
    rw [read_pos dev hdata, hpos]

end Ready

/-! ## write_block -/

/-- One turn of the retry loop. -/
theorem tryBlock_ready {data : Bytes} (h : Ready part start low pos fd)
    (hdata : data.length = part.eraseSize) :
    Ready part start low pos (tryBlock dev part pos data fd).2 ∧
      ((tryBlock dev part pos data fd).1 = true →
        (tryBlock dev part pos data fd).2.pos = pos + part.eraseSize) := by
  have herase := h.erase dev
  rw [tryBlock]
  generalize fd.erase dev pos part.eraseSize = r at herase
  obtain ⟨erased, fd₁⟩ := r
  cases erased with
  | false => exact ⟨herase, by simp⟩
  | true =>
    obtain ⟨hread, hpos⟩ := (herase.writeAt dev hdata).readAt dev
    simp only [Bool.not_true, Bool.false_eq_true, ↓reduceIte]
    generalize (fd₁.writeAt dev pos data).readAt dev pos part.eraseSize = r at hread hpos
    obtain ⟨verify, fd₂⟩ := r
    cases verify with
    | none => exact ⟨hread, by simp⟩
    | some verify => exact ⟨hread, fun _ => hpos verify rfl⟩

/-- After a success the guard is at the end of the block, and so is the position. -/
theorem Ready.wroteBlock (h : Ready part start low pos fd) (hpos : fd.pos = pos + part.eraseSize) :
    Guarded part start (pos + part.eraseSize) (fd.log (.wroteBlock pos)) where
  start_le := h.start_le.trans (h.low_le_block.trans (Nat.le_add_right _ _))
  low_le := Nat.le_of_eq hpos.symm
  pos_le := h.pos_le
  safe := Journal.each_append_singleton.mpr ⟨h.safe, fun pos length ht => by simp [Event.touches] at ht⟩
  wrote q hq := by
    rcases List.mem_append.mp hq with hq | hq
    · exact (h.wrote q hq).trans (h.low_le_block.trans (Nat.le_add_right _ _))
    · obtain rfl : q = pos := by simpa using hq
      exact Nat.le_refl _

theorem retryBlock_ready {data : Bytes} (hdata : data.length = part.eraseSize) :
    ∀ (turns : Nat) (fd : Fd σ), Ready part start low pos fd →
      let r := retryBlock dev part pos data turns fd
      if r.1 then Guarded part start r.2.pos r.2 else Ready part start low pos r.2 := by
  intro turns
  induction turns with
  | zero => exact fun fd h => h
  | succ turns ih =>
    intro fd h
    obtain ⟨htry, hpos⟩ := tryBlock_ready dev h hdata
    rw [retryBlock]
    generalize tryBlock dev part pos data fd = r at htry hpos
    obtain ⟨done, fd₁⟩ := r
    cases done with
    | false => exact ih fd₁ htry
    | true => exact (htry.wroteBlock (hpos rfl)).raise

/-- From a position in the partition on, the loop does not leave it. -/
structure Positions.Stays (positions : Positions) (part : MtdPartition) : Prop where
  end_le : ∀ pos ≤ part.size, positions.fits pos → pos + part.eraseSize ≤ part.size
  next_eq : ∀ pos ≤ part.size, positions.fits pos → positions.next pos = pos + part.eraseSize

theorem Positions.unbounded_stays (part : MtdPartition) : (Positions.unbounded part).Stays part where
  end_le pos _ hfits := by
    have hle := Int.le_trans hfits (asInt32_le part.size)
    omega
  next_eq _ _ _ := rfl

section
variable {positions : Positions} (hstays : positions.Stays part)

include hstays in
/-- The guard in the outer loop is the position at the call. -/
theorem writeBlockFromBy_guarded {data : Bytes} (hdata : data.length = part.eraseSize) :
    ∀ (fuel pos : Nat) (w : BlockWriter σ), Guarded part start low w.fd → low ≤ pos → pos ≤ part.size →
      Guarded part start (writeBlockFromBy dev part positions data fuel pos w).2.fd.pos
        (writeBlockFromBy dev part positions data fuel pos w).2.fd := by
  intro fuel
  induction fuel with
  | zero => exact fun pos w h _ _ => h.raise
  | succ fuel ih =>
    intro pos w h hlow hpos
    rw [writeBlockFromBy]
    split
    swap
    · exact h.raise
    rename_i hfits
    have hend := hstays.end_le pos hpos hfits
    rw [hstays.next_eq pos hpos hfits]
    have hlow' : low ≤ pos + part.eraseSize := hlow.trans (Nat.le_add_right _ _)
    have hquery := h.getBadBlock dev pos
    have hasked := @asked_getBadBlock σ dev pos w.fd
    generalize w.fd.getBadBlock dev pos = r at hquery hasked
    obtain ⟨answer, fd₁⟩ := r
    dsimp only at hquery hasked ⊢
    split
    · exact ih _ _ hquery hlow' hend
    · rename_i hgood
      have hnot : answer ≠ .bad := by
        rintro rfl
        exact hgood ⟨by decide, by decide⟩
      have hretry := retryBlock_ready dev hdata 2 fd₁ ⟨hquery, hasked hnot, hlow, hend⟩
      generalize retryBlock dev part pos data 2 fd₁ = r at hretry
      obtain ⟨done, fd₂⟩ := r
      cases done with
      | true => exact hretry
      | false => exact ih _ _ (hretry.erase dev).toGuarded hlow' hend

include hstays in
theorem writeBlockBy_guarded {data : Bytes} (hdata : data.length = part.eraseSize) {w : BlockWriter σ}
    (h : Guarded part start low w.fd) :
    Guarded part start (writeBlockBy dev part positions data w).2.fd.pos
      (writeBlockBy dev part positions data w).2.fd := by
  have htell := h.tell dev
  rw [writeBlockBy]
  generalize w.fd.tell dev = r at htell
  obtain ⟨ok, fd₁⟩ := r
  cases ok with
  | false => exact htell.raise
  | true => exact writeBlockFromBy_guarded dev hstays hdata _ _ _ htell.raise (Nat.le_refl _) htell.pos_le

end

/-! ## The context -/

/-- Nothing before the position of the descriptor is touched any more, and no more than a
block is pending. -/
structure Safe (part : MtdPartition) (start : Nat) (ctx : WriteContext σ) : Prop where
  guarded : Guarded part start ctx.writer.fd.pos ctx.writer.fd
  stored_le : ctx.stored ≤ part.eraseSize

section
variable {writeBlock : Bytes → BlockWriter σ → Int × BlockWriter σ}
  (hblock : ∀ data w, data.length = part.eraseSize → Guarded part start w.fd.pos w.fd →
    Guarded part start (writeBlock data w).2.fd.pos (writeBlock data w).2.fd)

include hblock in
theorem writeDataBy_safe (data : Bytes) {ctx : WriteContext σ} (h : Safe part start ctx) :
    Safe part start (writeDataBy part writeBlock data ctx).2 := by
  obtain ⟨r, heq, hguarded, hstored⟩ := Chunks.writeData_keeps
    (P := fun w => Guarded part start w.fd.pos w.fd) hblock part.eraseSize_pos data h.guarded h.stored_le
  rw [writeDataBy, heq, Option.getD_some]
  exact ⟨hguarded, hstored⟩

include hblock in
theorem flushPendingBy_safe {ctx : WriteContext σ} (h : Safe part start ctx) :
    Safe part start (flushPendingBy part writeBlock ctx).2 := by
  have hle := h.stored_le
  have hdata : (ctx.buffer ++ List.replicate (part.eraseSize - ctx.stored) 0).length =
      part.eraseSize := by
    simp only [Chunks.Context.stored] at hle
    simp only [List.length_append, List.length_replicate, Chunks.Context.stored]
    omega
  rw [flushPendingBy]
  split
  swap
  · exact h
  have hwrite := hblock _ _ hdata h.guarded
  dsimp only
  generalize writeBlock (ctx.buffer ++ List.replicate (part.eraseSize - ctx.stored) 0)
    ctx.writer = r at hwrite
  obtain ⟨ret, w⟩ := r
  dsimp only
  split
  · exact ⟨hwrite, h.stored_le⟩
  · exact ⟨hwrite, Nat.zero_le _⟩

end

/-- The loop of `mtd_erase_blocks` leaves the position of the descriptor. -/
theorem eraseBlocksFrom_guarded :
    ∀ (blocks pos : Nat) (fd : Fd σ), Guarded part start low fd → low ≤ pos →
      pos + blocks * part.eraseSize ≤ part.size →
      Guarded part start low (eraseBlocksFrom dev part blocks pos fd).2 := by
  intro blocks
  induction blocks with
  | zero => exact fun pos fd h _ _ => h
  | succ blocks ih =>
    intro pos fd h hlow hend
    rw [Nat.add_mul] at hend
    have hquery := h.getBadBlock dev pos
    have hasked := @asked_getBadBlock σ dev pos fd
    rw [eraseBlocksFrom]
    generalize fd.getBadBlock dev pos = r at hquery hasked
    obtain ⟨answer, fd₁⟩ := r
    dsimp only at hquery hasked ⊢
    split
    · exact ih _ _ hquery (by omega) (by omega)
    · rename_i hnot
      have hready : Ready part start low pos fd₁ := ⟨hquery, hasked hnot, hlow, by omega⟩
      exact ih _ _ (hready.erase dev).toGuarded (by omega) (by omega)

/-- Any number of blocks that `mtd_erase_blocks` accepts lies in the partition. -/
theorem total_le {pos : Nat} (hpos : pos ≤ part.size) {blocks : Int}
    (h : blocks ≤ asInt32 ((((part.size : Int) - pos) % 2 ^ 32).toNat / part.eraseSize)) :
    pos + blocks.toNat * part.eraseSize ≤ part.size := by
  have hsize := part.size_lt
  have hsub : (((part.size : Int) - pos) % 2 ^ 32).toNat = part.size - pos := by omega
  rw [hsub] at h
  have hle := Int.le_trans h (asInt32_le _)
  have hblocks : blocks.toNat ≤ (part.size - pos) / part.eraseSize := Int.toNat_le.mpr hle
  have hmul := Nat.mul_le_mul_right part.eraseSize hblocks
  have hdiv := Nat.div_mul_le_self (part.size - pos) part.eraseSize
  omega

section
variable {writeBlock : Bytes → BlockWriter σ → Int × BlockWriter σ}
  (hblock : ∀ data w, data.length = part.eraseSize → Guarded part start w.fd.pos w.fd →
    Guarded part start (writeBlock data w).2.fd.pos (writeBlock data w).2.fd)

include hblock in
theorem eraseBlocksBy_safe (blocks : Int) {ctx : WriteContext σ} (h : Safe part start ctx) :
    Safe part start (eraseBlocksBy dev part writeBlock blocks ctx).2 := by
  have hflush := flushPendingBy_safe hblock h
  rw [eraseBlocksBy]
  generalize flushPendingBy part writeBlock ctx = r at hflush
  obtain ⟨ret, ctx₁⟩ := r
  dsimp only at hflush ⊢
  split
  · exact hflush
  have htell : Guarded part start ctx₁.writer.fd.pos (ctx₁.writer.fd.tell dev).2 :=
    hflush.guarded.tell dev
  have hpos : (ctx₁.writer.fd.tell dev).2.pos = ctx₁.writer.fd.pos := rfl
  generalize ctx₁.writer.fd.tell dev = r at htell hpos
  obtain ⟨ok, fd₁⟩ := r
  dsimp only at htell hpos ⊢
  split
  · exact ⟨htell.raise, hflush.stored_le⟩
  obtain ⟨count, hcount⟩ : ∃ count, count = if blocks < 0 then
      asInt32 ((((part.size : Int) - fd₁.pos) % 2 ^ 32).toNat / part.eraseSize) else blocks := ⟨_, rfl⟩
  rw [← hcount]
  split
  · exact ⟨htell.raise, hflush.stored_le⟩
  rename_i htotal
  exact ⟨(eraseBlocksFrom_guarded dev _ _ _ htell.raise (Nat.le_refl _)
    (total_le htell.pos_le (Int.not_lt.mp htotal))).raise, hflush.stored_le⟩

include hblock in
theorem writeCloseBy_safe {ctx : WriteContext σ} (h : Safe part start ctx) :
    Safe part start (writeCloseBy dev part writeBlock ctx).2 := by
  have herase := eraseBlocksBy_safe dev hblock 0 h
  rw [writeCloseBy]
  generalize eraseBlocksBy dev part writeBlock 0 ctx = r at herase
  obtain ⟨erased, ctx₁⟩ := r
  exact ⟨(herase.guarded.close dev).raise, herase.stored_le⟩

end

/-! ## Runs -/

/-- A call on a write context. -/
inductive WriteCall where
  | writeData (data : Bytes)
  | eraseBlocks (blocks : Int)
  | writeClose

section
variable (dev : Driver σ) (part : MtdPartition) (writeBlock : Bytes → BlockWriter σ → Int × BlockWriter σ)

def WriteCall.execBy (ctx : WriteContext σ) : WriteCall → Int × WriteContext σ
  | writeData data => writeDataBy part writeBlock data ctx
  | eraseBlocks blocks => eraseBlocksBy dev part writeBlock blocks ctx
  | writeClose => writeCloseBy dev part writeBlock ctx

/-- The context after a sequence of calls. -/
def runWritesBy (calls : List WriteCall) (ctx : WriteContext σ) : WriteContext σ :=
  calls.foldl (fun ctx call => (call.execBy dev part writeBlock ctx).2) ctx

end

section
variable {writeBlock : Bytes → BlockWriter σ → Int × BlockWriter σ}
  (hblock : ∀ data w, data.length = part.eraseSize → Guarded part start w.fd.pos w.fd →
    Guarded part start (writeBlock data w).2.fd.pos (writeBlock data w).2.fd)

include hblock in
theorem WriteCall.execBy_safe (call : WriteCall) {ctx : WriteContext σ} (h : Safe part start ctx) :
    Safe part start (call.execBy dev part writeBlock ctx).2 := by
  cases call with
  | writeData data => exact writeDataBy_safe hblock data h
  | eraseBlocks blocks => exact eraseBlocksBy_safe dev hblock blocks h
  | writeClose => exact writeCloseBy_safe dev hblock h

include hblock in
theorem runWritesBy_safe (calls : List WriteCall) :
    ∀ ctx : WriteContext σ, Safe part start ctx → Safe part start (runWritesBy dev part writeBlock calls ctx) := by
  induction calls with
  | nil => exact fun ctx h => h
  | cons call calls ih => exact fun ctx h => ih _ (call.execBy_safe dev hblock h)

end

/-- A context whose descriptor was opened at position `start`. `mtd_write_partition` opens
it at 0. -/
def openedAt (start : Nat) (state : σ) : WriteContext σ where
  writer := ⟨⟨start, state, []⟩, [], 0⟩
  buffer := []

theorem openedAt_safe (h : start ≤ part.size) (state : σ) :
    Safe part start (openedAt start state) where
  guarded := ⟨Nat.le_refl _, Nat.le_refl _, h, Journal.each_nil, by simp [openedAt]⟩
  stored_le := Nat.zero_le _

end LinuxOta.Mtd
