-- SUMMARY: Where `write_block` stores a block, which blocks it notes as bad, and what `mtd_find_write_start` finds in that list.
import LinuxOta.Flash.MtdSafety
import LinuxOta.Flash.MtdStream
import Mathlib.Algebra.Order.Ring.Int
import Mathlib.Order.Bounds.Defs

namespace LinuxOta.Mtd

/-! # The list of bad blocks

`write_block` notes every block it passes over. Positions only grow between successes, so that
the list is sorted, and `mtd_find_write_start` may stop at the first entry behind its
position. -/

/-- The loop of `mtd_find_write_start` over the entries of `bad_block_offsets`. -/
def findWriteStartFrom (eraseSize : Nat) : List Nat → Int → Int
  | [], pos => pos
  | offset :: offsets, pos =>
    if (offset : Int) = pos then findWriteStartFrom eraseSize offsets (pos + eraseSize)
    else if (offset : Int) > pos then pos
    else findWriteStartFrom eraseSize offsets pos

/-- `mtd_find_write_start`. -/
def findWriteStart {σ : Type} (part : MtdPartition) (w : BlockWriter σ) (pos : Int) : Int :=
  findWriteStartFrom part.eraseSize w.badBlockOffsets pos

/-- Multiples do not come closer than `e`. -/
theorem add_le_of_dvd_of_lt {e a b : Int} (ha : e ∣ a) (hb : e ∣ b) (h : a < b) : a + e ≤ b := by
  have hle := Int.le_of_dvd (by omega) (Int.dvd_sub hb ha)
  omega

/-- In a sorted list of multiples of `e`, the loop finds the least multiple that is not
listed. -/
theorem findWriteStartFrom_isLeast {e : Nat} (he : 0 < e) :
    ∀ (offsets : List Nat), offsets.Pairwise (· < ·) → (∀ offset ∈ offsets, e ∣ offset) →
      ∀ pos : Int, (e : Int) ∣ pos →
        IsLeast {q : Int | pos ≤ q ∧ (e : Int) ∣ q ∧ ∀ offset ∈ offsets, (offset : Int) ≠ q}
          (findWriteStartFrom e offsets pos) := by
  intro offsets
  induction offsets with
  | nil => exact fun _ _ pos hpos => ⟨⟨Int.le_refl _, hpos, by simp⟩, fun q hq => hq.1⟩
  | cons offset offsets ih =>
    intro hsorted hmultiples pos hpos
    obtain ⟨hfirst, hsorted'⟩ := List.pairwise_cons.mp hsorted
    obtain ⟨hoffset, hmultiples'⟩ := List.forall_mem_cons.mp hmultiples
    rw [findWriteStartFrom]
    split
    · -- the position is listed, and the rest of the list lies behind it
      rename_i heq
      have hnext : (e : Int) ∣ pos + e := Int.dvd_add hpos (Int.dvd_refl _)
      obtain ⟨⟨hle, hdvd, hnot⟩, hleast⟩ := ih hsorted' hmultiples' (pos + e) hnext
      refine ⟨⟨by omega, hdvd, List.forall_mem_cons.mpr ⟨by omega, hnot⟩⟩, fun q hq => ?_⟩
      obtain ⟨hq, hqdvd, hqnot⟩ := hq
      obtain ⟨hne, hqnot'⟩ := List.forall_mem_cons.mp hqnot
      exact hleast ⟨add_le_of_dvd_of_lt hpos hqdvd (by omega), hqdvd, hqnot'⟩
    · rename_i hne
      split
      · -- no entry is at the position
        rename_i hgt
        refine ⟨⟨Int.le_refl _, hpos, List.forall_mem_cons.mpr ⟨hne, fun offset' hmem => ?_⟩⟩,
          fun q hq => hq.1⟩
        have hlt := hfirst offset' hmem
        omega
      · -- the entry is before the position
        rename_i hle
        obtain ⟨⟨hpos', hdvd, hnot⟩, hleast⟩ := ih hsorted' hmultiples' pos hpos
        refine ⟨⟨hpos', hdvd, List.forall_mem_cons.mpr ⟨by omega, hnot⟩⟩, fun q hq => ?_⟩
        exact hleast ⟨hq.1, hq.2.1, fun offset' hmem =>
          hq.2.2 offset' (List.mem_cons_of_mem _ hmem)⟩

/-! ## write_block -/

section
variable {σ : Type} (dev : Driver σ) (part : MtdPartition)

/-- The journal of a descriptor only grows. -/
def Extends (fd fd' : Fd σ) : Prop := fd.journal <+: fd'.journal

variable {dev part} {fd : Fd σ} {pos : Nat} {data : Bytes}

theorem Extends.trans {fd fd' fd'' : Fd σ} (h : Extends fd fd') (h' : Extends fd' fd'') :
    Extends fd fd'' :=
  List.IsPrefix.trans h h'

theorem extends_log (fd : Fd σ) (e : Event) : Extends fd (fd.log e) := List.prefix_append _ _

variable (dev) in
theorem extends_writeAt (fd : Fd σ) (pos : Nat) (data : Bytes) :
    Extends fd (fd.writeAt dev pos data) := by
  rw [Fd.writeAt]
  cases hok : (fd.seek dev pos).1 with
  | false =>
    simp only [hok]
    exact List.prefix_rfl
  | true =>
    simp only [hok, ↓reduceIte]
    exact List.prefix_append _ _

variable (dev) in
theorem extends_readAt (fd : Fd σ) (pos length : Nat) : Extends fd (fd.readAt dev pos length).2 := by
  rw [Fd.readAt]
  cases hok : (fd.seek dev pos).1 with
  | false =>
    simp only [hok]
    exact List.prefix_rfl
  | true =>
    simp only [hok, ↓reduceIte]
    exact List.prefix_append _ _

/-- A complete read is the last entry of the journal. -/
theorem readAt_some {length : Nat} {verify : Bytes} (h : (fd.readAt dev pos length).1 = some verify) :
    (fd.readAt dev pos length).2.journal = fd.journal ++ [.read pos length (some verify)] ∧
      (fd.readAt dev pos length).2.pos = pos + length := by
  rw [Fd.readAt] at h ⊢
  cases hok : (fd.seek dev pos).1 with
  | false => simp [hok] at h
  | true =>
    simp only [hok, ↓reduceIte] at h ⊢
    have hpos := seek_pos dev hok
    refine ⟨?_, by rw [read_pos dev h, hpos]⟩
    have hjournal : ((fd.seek dev pos).2.read dev length).2.journal = (fd.seek dev pos).2.journal ++
        [.read (fd.seek dev pos).2.pos length ((fd.seek dev pos).2.read dev length).1] := rfl
    rw [hjournal, h, hpos]
    rfl

variable (dev part pos data) in
/-- A turn that succeeds ends with a read of what was to be written. -/
theorem tryBlock_journal (fd : Fd σ) :
    Extends fd (tryBlock dev part pos data fd).2 ∧
      ((tryBlock dev part pos data fd).1 = true →
        (∃ evs, (tryBlock dev part pos data fd).2.journal =
            fd.journal ++ evs ++ [.read pos part.eraseSize (some data)]) ∧
          (tryBlock dev part pos data fd).2.pos = pos + part.eraseSize) := by
  have herase : Extends fd (fd.erase dev pos part.eraseSize).2 := List.prefix_append _ _
  rw [tryBlock]
  generalize fd.erase dev pos part.eraseSize = r at herase
  obtain ⟨erased, fd₁⟩ := r
  cases erased with
  | false => exact ⟨herase, by simp⟩
  | true =>
    have hwrite := herase.trans (extends_writeAt dev fd₁ pos data)
    have hread := hwrite.trans (extends_readAt dev (fd₁.writeAt dev pos data) pos part.eraseSize)
    have hsome : ∀ verify,
        ((fd₁.writeAt dev pos data).readAt dev pos part.eraseSize).1 = some verify → _ :=
      fun _ => readAt_some
    simp only [Bool.not_true, Bool.false_eq_true, ↓reduceIte]
    generalize (fd₁.writeAt dev pos data).readAt dev pos part.eraseSize = r at hread hsome
    obtain ⟨verify, fd₂⟩ := r
    cases verify with
    | none => exact ⟨hread, by simp⟩
    | some verify =>
      obtain ⟨hjournal, hpos⟩ := hsome verify rfl
      refine ⟨hread, fun heq => ?_⟩
      obtain rfl : data = verify := by simpa using heq
      obtain ⟨evs, hevs⟩ := hwrite
      exact ⟨⟨evs, by rw [hjournal, hevs]⟩, hpos⟩

variable (part) in
/-- The block at `pos` was read back as `data`, and reported as written. -/
structure Verified (data : Bytes) (pos : Nat) (fd fd' : Fd σ) : Prop where
  journal : ∃ evs, fd'.journal =
    fd.journal ++ evs ++ [.read pos part.eraseSize (some data), .wroteBlock pos]
  pos_eq : fd'.pos = pos + part.eraseSize

theorem Verified.after {fd₀ fd' : Fd σ} (h : Verified part data pos fd fd') (hext : Extends fd₀ fd) :
    Verified part data pos fd₀ fd' := by
  obtain ⟨evs₀, hevs₀⟩ := hext
  obtain ⟨evs, hevs⟩ := h.journal
  exact ⟨⟨evs₀ ++ evs, by rw [hevs, ← hevs₀, List.append_assoc fd₀.journal]⟩, h.pos_eq⟩

variable (dev part pos data) in
theorem retryBlock_verified :
    ∀ (turns : Nat) (fd : Fd σ), Extends fd (retryBlock dev part pos data turns fd).2 ∧
      ((retryBlock dev part pos data turns fd).1 = true →
        Verified part data pos fd (retryBlock dev part pos data turns fd).2) := by
  intro turns
  induction turns with
  | zero => exact fun fd => ⟨List.prefix_rfl, by simp [retryBlock]⟩
  | succ turns ih =>
    intro fd
    obtain ⟨hext, hdone⟩ := tryBlock_journal dev part pos data fd
    rw [retryBlock]
    generalize tryBlock dev part pos data fd = r at hext hdone
    obtain ⟨done, fd₁⟩ := r
    cases done with
    | false =>
      obtain ⟨hext', hverified⟩ := ih fd₁
      exact ⟨hext.trans hext', fun h => (hverified h).after hext⟩
    | true =>
      obtain ⟨⟨evs, hevs⟩, hpos⟩ := hdone rfl
      refine ⟨hext.trans (extends_log fd₁ _), fun _ => ⟨⟨evs, ?_⟩, hpos⟩⟩
      dsimp only [Fd.log] at hevs ⊢
      rw [hevs, List.append_assoc _ [_], List.singleton_append]

variable (part) in
/-- Between `w` and `w'` the `k` blocks from `pos` on were noted as bad. -/
structure Passed (pos k : Nat) (w w' : BlockWriter σ) : Prop where
  offsets : w'.badBlockOffsets =
    w.badBlockOffsets ++ (List.range k).map fun i => pos + i * part.eraseSize
  alloc : w.badBlockOffsets.length ≤ w.badBlockAlloc → w'.badBlockOffsets.length ≤ w'.badBlockAlloc
  extends_fd : Extends w.fd w'.fd

variable (part pos) in
/-- No block was passed over. -/
theorem passed_zero (w : BlockWriter σ) {fd : Fd σ} (h : Extends w.fd fd) :
    Passed part pos 0 w { w with fd := fd } :=
  ⟨by simp, id, h⟩

theorem count_addBadBlockOffset {w : BlockWriter σ} (h : w.badBlockOffsets.length ≤ w.badBlockAlloc)
    (pos : Nat) :
    (w.addBadBlockOffset pos).badBlockOffsets.length ≤ (w.addBadBlockOffset pos).badBlockAlloc := by
  simp only [BlockWriter.addBadBlockOffset, List.length_append, List.length_singleton]
  split <;> omega

/-- One block is noted, and the others after it. -/
theorem Passed.cons {k : Nat} {w w' : BlockWriter σ} {fd : Fd σ} (hext : Extends w.fd fd)
    (h : Passed part (pos + part.eraseSize) k { w.addBadBlockOffset pos with fd := fd } w') :
    Passed part pos (k + 1) w w' where
  offsets := by
    have hshift : ∀ i, pos + part.eraseSize + i * part.eraseSize = pos + (i + 1) * part.eraseSize := by
      intro i
      rw [Nat.succ_mul]
      omega
    rw [h.offsets, List.range_succ_eq_map, List.map_cons, List.map_map]
    simp only [BlockWriter.addBadBlockOffset, hshift, List.append_assoc, List.singleton_append,
      Nat.zero_mul, Nat.add_zero]
    rfl
  alloc hcount := h.alloc (count_addBadBlockOffset hcount pos)
  extends_fd := hext.trans h.extends_fd

variable (part) in
/-- `write_block` has passed over `k` blocks from `pos` on and stored its data in the next. -/
structure StoredBehind (data : Bytes) (pos k : Nat) (w w' : BlockWriter σ) : Prop where
  passed : Passed part pos k w w'
  end_le : pos + k * part.eraseSize + part.eraseSize ≤ part.size
  verified : Verified part data (pos + k * part.eraseSize) w.fd w'.fd

/-- One block is passed over, and the data are stored behind it. -/
theorem StoredBehind.cons {k : Nat} {w w' : BlockWriter σ} {fd : Fd σ} (hext : Extends w.fd fd)
    (h : StoredBehind part data (pos + part.eraseSize) k { w.addBadBlockOffset pos with fd := fd } w') :
    StoredBehind part data pos (k + 1) w w' := by
  have hshift : pos + part.eraseSize + k * part.eraseSize = pos + (k + 1) * part.eraseSize := by
    rw [Nat.succ_mul]
    omega
  have hend := h.end_le
  have hverified := h.verified
  rw [hshift] at hend hverified
  exact ⟨h.passed.cons hext, hend, hverified.after hext⟩

section
variable {positions : Positions} (hstays : positions.Stays part)

variable (dev data) in
include hstays in
theorem writeBlockFromBy_stored :
    ∀ (fuel pos : Nat) (w : BlockWriter σ), pos ≤ part.size →
      ∃ k, Passed part pos k w (writeBlockFromBy dev part positions data fuel pos w).2 ∧
        ((writeBlockFromBy dev part positions data fuel pos w).1 = 0 →
          StoredBehind part data pos k w (writeBlockFromBy dev part positions data fuel pos w).2) := by
  intro fuel
  induction fuel with
  | zero =>
    exact fun pos w _ =>
      ⟨0, passed_zero part pos w List.prefix_rfl, fun h => absurd h (by simp [writeBlockFromBy])⟩
  | succ fuel ih =>
    intro pos w hpos
    rw [writeBlockFromBy]
    split
    swap
    · exact ⟨0, passed_zero part pos w List.prefix_rfl, fun h => absurd h (by simp)⟩
    rename_i hfits
    have hend := hstays.end_le pos hpos hfits
    rw [hstays.next_eq pos hpos hfits]
    have hquery : Extends w.fd (w.fd.getBadBlock dev pos).2 := List.prefix_append _ _
    generalize w.fd.getBadBlock dev pos = r at hquery
    obtain ⟨answer, fd₁⟩ := r
    dsimp only
    split
    · -- a bad block is passed over
      obtain ⟨k, hpassed, hstored⟩ := ih (pos + part.eraseSize)
        (BlockWriter.addBadBlockOffset pos { w with fd := fd₁ }) hend
      exact ⟨k + 1, hpassed.cons hquery, fun h => (hstored h).cons hquery⟩
    · obtain ⟨hext, hverified⟩ := retryBlock_verified dev part pos data 2 fd₁
      generalize retryBlock dev part pos data 2 fd₁ = r at hext hverified
      obtain ⟨done, fd₂⟩ := r
      have hext₂ := hquery.trans hext
      cases done with
      | true =>
        have hpassed := passed_zero part pos w hext₂
        have hblock := (hverified rfl).after hquery
        refine ⟨0, hpassed, fun _ => ⟨hpassed, ?_, ?_⟩⟩
        · rwa [Nat.zero_mul, Nat.add_zero]
        · rwa [Nat.zero_mul, Nat.add_zero]
      | false =>
        -- a block that could not be written is passed over
        have herase : Extends fd₂ (fd₂.erase dev pos part.eraseSize).2 := List.prefix_append _ _
        obtain ⟨k, hpassed, hstored⟩ := ih (pos + part.eraseSize)
          { BlockWriter.addBadBlockOffset pos { w with fd := fd₂ } with
            fd := (fd₂.erase dev pos part.eraseSize).2 } hend
        exact ⟨k + 1, hpassed.cons (hext₂.trans herase), fun h =>
          (hstored h).cons (hext₂.trans herase)⟩

variable (dev) in
include hstays in
/-- `write_block` passes over some blocks, and stores its data behind them when it returns 0. -/
theorem writeBlockBy_stored (data : Bytes) (w : BlockWriter σ) (hpos : w.fd.pos ≤ part.size) :
    ∃ k, Passed part w.fd.pos k w (writeBlockBy dev part positions data w).2 ∧
      ((writeBlockBy dev part positions data w).1 = 0 →
        StoredBehind part data w.fd.pos k w (writeBlockBy dev part positions data w).2) := by
  have htell : (w.fd.tell dev).2.journal = w.fd.journal ∧ (w.fd.tell dev).2.pos = w.fd.pos := ⟨rfl, rfl⟩
  rw [writeBlockBy]
  generalize w.fd.tell dev = r at htell
  obtain ⟨ok, fd⟩ := r
  obtain ⟨hjournal, hkept⟩ := htell
  have hext : Extends w.fd fd := ⟨[], by rw [hjournal, List.append_nil]⟩
  dsimp only at hkept ⊢
  split
  · exact ⟨0, passed_zero part _ w hext, fun h => absurd h (by simp)⟩
  · obtain ⟨k, hpassed, hstored⟩ := writeBlockFromBy_stored dev data hstays (part.size + 1) fd.pos
      { w with fd := fd } (Nat.le_of_eq hkept |>.trans hpos)
    rw [hkept] at hpassed hstored ⊢
    refine ⟨k, ⟨hpassed.offsets, hpassed.alloc, hext.trans hpassed.extends_fd⟩, fun h => ?_⟩
    exact ⟨⟨hpassed.offsets, hpassed.alloc, hext.trans hpassed.extends_fd⟩, (hstored h).end_le,
      (hstored h).verified.after hext⟩

end

/-! ## Runs -/

variable (part) in
/-- The list is sorted, without duplicates, and fits what was allocated for it. -/
structure Listed (w : BlockWriter σ) : Prop where
  increasing : w.badBlockOffsets.Pairwise (· < ·)
  count_le : w.badBlockOffsets.length ≤ w.badBlockAlloc
  multiples : ∀ offset ∈ w.badBlockOffsets, part.eraseSize ∣ offset

variable (part) in
/-- As long as no `write_block` has failed, the descriptor stands at a block behind all that
are listed. -/
structure Behind (w : BlockWriter σ) : Prop extends Listed part w where
  pos_le : w.fd.pos ≤ part.size
  pos_dvd : part.eraseSize ∣ w.fd.pos
  before : ∀ offset ∈ w.badBlockOffsets, offset < w.fd.pos

theorem behind_fresh (state : σ) : Behind part (writePartition state).writer where
  increasing := List.Pairwise.nil
  count_le := Nat.le_refl _
  multiples := by simp [writePartition]
  pos_le := Nat.zero_le _
  pos_dvd := Nat.dvd_zero _
  before := by simp [writePartition]

theorem Passed.listed {k : Nat} {w w' : BlockWriter σ} (h : Passed part w.fd.pos k w w')
    (hw : Behind part w) : Listed part w' where
  increasing := by
    rw [h.offsets, List.pairwise_append]
    refine ⟨hw.increasing, ?_, fun offset hoffset new hnew => ?_⟩
    · rw [List.pairwise_map]
      refine List.pairwise_lt_range.imp fun hlt => ?_
      exact Nat.add_lt_add_left (Nat.mul_lt_mul_of_pos_right hlt part.eraseSize_pos) _
    · obtain ⟨i, -, rfl⟩ := List.mem_map.mp hnew
      exact Nat.lt_of_lt_of_le (hw.before offset hoffset) (Nat.le_add_right _ _)
  count_le := h.alloc hw.count_le
  multiples offset hoffset := by
    rw [h.offsets] at hoffset
    rcases List.mem_append.mp hoffset with hold | hnew
    · exact hw.multiples offset hold
    · obtain ⟨i, -, rfl⟩ := List.mem_map.mp hnew
      exact Nat.dvd_add hw.pos_dvd (Nat.dvd_mul_left _ _)

theorem StoredBehind.behind {k : Nat} {w w' : BlockWriter σ}
    (h : StoredBehind part data w.fd.pos k w w') (hw : Behind part w) : Behind part w' where
  toListed := h.passed.listed hw
  pos_le := by
    rw [h.verified.pos_eq]
    exact h.end_le
  pos_dvd := by
    rw [h.verified.pos_eq]
    exact Nat.dvd_add (Nat.dvd_add hw.pos_dvd (Nat.dvd_mul_left _ _)) (Nat.dvd_refl _)
  before offset hoffset := by
    have hpos := part.eraseSize_pos
    rw [h.passed.offsets] at hoffset
    rw [h.verified.pos_eq]
    rcases List.mem_append.mp hoffset with hold | hnew
    · have hlt := hw.before offset hold
      omega
    · obtain ⟨i, hi, rfl⟩ := List.mem_map.mp hnew
      have hle := Nat.mul_le_mul_right part.eraseSize (Nat.le_of_lt (List.mem_range.mp hi))
      omega

section
variable {writeBlock : Bytes → BlockWriter σ → Int × BlockWriter σ}
  (hblock : ∀ data w, w.fd.pos ≤ part.size → ∃ k, Passed part w.fd.pos k w (writeBlock data w).2 ∧
    ((writeBlock data w).1 = 0 → StoredBehind part data w.fd.pos k w (writeBlock data w).2))

include hblock in
theorem handOver_listed (bs : List Bytes) :
    ∀ w : BlockWriter σ, Behind part w → Listed part (Chunks.handOver writeBlock bs w).2 ∧
      ((Chunks.handOver writeBlock bs w).1 = true → Behind part (Chunks.handOver writeBlock bs w).2) := by
  induction bs with
  | nil => exact fun w hw => ⟨hw.toListed, fun _ => hw⟩
  | cons b bs ih =>
    intro w hw
    obtain ⟨k, hpassed, hstored⟩ := hblock b w hw.pos_le
    by_cases hret : (writeBlock b w).1 = 0
    · rw [Chunks.handOver_cons hret]
      exact ih _ ((hstored hret).behind hw)
    · rw [Chunks.handOver_cons_of_fails hret]
      exact ⟨hpassed.listed hw, by simp⟩

include hblock in
/-- Up to the first call that fails, and after it. -/
theorem writeCallsBy_listed (calls : List Bytes) :
    ∀ (w : BlockWriter σ) (buffer : Bytes), Behind part w → buffer.length < part.eraseSize →
      (∀ ret ∈ (writeCallsBy part writeBlock calls ⟨w, buffer⟩).1.dropLast, ret ≠ -1) →
      Listed part (writeCallsBy part writeBlock calls ⟨w, buffer⟩).2.writer := by
  induction calls with
  | nil => exact fun w buffer hw _ _ => hw.toListed
  | cons data calls ih =>
    intro w buffer hw hbuffer hrets
    have hcall := writeDataBy_eq part writeBlock data w hbuffer
    obtain ⟨hlisted, hbehind⟩ := handOver_listed hblock (Blocks.whole part.eraseSize (buffer ++ data)) w hw
    rw [writeCallsBy] at hrets ⊢
    generalize Chunks.handOver writeBlock (Blocks.whole part.eraseSize (buffer ++ data)) w = h
      at hcall hlisted hbehind
    obtain ⟨ok, w'⟩ := h
    cases ok with
    | true =>
      dsimp only at hcall hrets ⊢
      rw [hcall] at hrets ⊢
      dsimp only at hrets ⊢
      refine ih w' _ (hbehind rfl) (Blocks.rest_length_lt part.eraseSize_pos _) fun ret hret => ?_
      refine hrets ret ?_
      rw [List.dropLast_cons_of_ne_nil fun hnil => by simp [hnil] at hret]
      exact List.mem_cons_of_mem _ hret
    | false =>
      obtain ⟨hret, hwriter⟩ := hcall
      cases calls with
      | nil =>
        dsimp only [writeCallsBy]
        rw [hwriter]
        exact hlisted
      | cons data' calls =>
        -- another call follows, so that this one did not fail
        refine absurd hret (hrets _ ?_)
        simp [writeCallsBy]

end

end
end LinuxOta.Mtd
