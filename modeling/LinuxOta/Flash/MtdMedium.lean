-- SUMMARY: A flash medium whose blocks may be bad or fail, and what `write_block` stores on it.
import LinuxOta.Base.Picks
import LinuxOta.Flash.MtdSafety
import LinuxOta.Flash.MtdStream

namespace LinuxOta.Mtd

/-! # Flash media

Blocks are numbered from the start of the partition. What a block does depends on
the block, on how often it was erased since the context was opened, and on the
data it is given. Seeks do not fail. -/

/-- What a block does between two erases. -/
structure Attempt where
  /-- `MEMERASE` does not fail. -/
  erases : Bool
  programs : Transfer Unit
  /-- What the block holds after it was programmed with some data. -/
  held : Bytes → Content
  /-- How the verifying read ends. -/
  rereads : Transfer Unit

/-- How a later read of a block ends. -/
inductive Reading where
  | clean
  /-- The counter of failed corrections grows by `more + 1`. -/
  | eccFails (more : Nat)
  | short (moved : Nat)
  deriving DecidableEq

structure Block where
  badBlock : BadBlockAnswer
  attempt : (erases : Nat) → Attempt
  reading : Reading

/-- The blocks of a medium, and what is found at each address after an erase, even one that
fails. -/
structure Medium where
  block : Nat → Block
  left : Content

/-- Whether the verifying read delivers the data that were programmed. -/
def Attempt.lands (a : Attempt) (data : Bytes) : Bool :=
  a.erases && (match a.rereads with | .whole _ => true | .short _ => false) &&
    decide ((a.held data).read 0 data.length = data)

/-- `write_block` does not skip the block at once. -/
def Block.tried (b : Block) : Bool := b.badBlock = .good || b.badBlock = .unsupported

/-- `write_block` stores the data in the block. -/
def Block.takes (b : Block) (data : Bytes) : Bool :=
  b.tried && ((b.attempt 0).lands data || (b.attempt 1).lands data)

/-- `read_block` delivers the block. -/
def Block.delivers (b : Block) : Bool := b.badBlock = .good && b.reading = .clean

/-- The number of blocks that `read_block` and `write_block` get to. -/
def blockCount (part : MtdPartition) : Nat := (asInt32 part.size).toNat / part.eraseSize

/-- The loops go on while there is a block left. -/
theorem end_le_size_iff (part : MtdPartition) (n : Nat) :
    (((n * part.eraseSize : Nat) : Int) + part.eraseSize ≤ asInt32 part.size) ↔ n < blockCount part := by
  rw [blockCount, ← Nat.succ_le_iff, Nat.le_div_iff_mul_le part.eraseSize_pos, Nat.succ_mul]
  have hpos := part.eraseSize_pos
  generalize n * part.eraseSize = m
  omega

theorem blockCount_le (part : MtdPartition) : blockCount part ≤ part.size := by
  have hsize := asInt32_le part.size
  exact (Nat.div_le_self _ _).trans (by omega)

theorem blockCount_mul_le (part : MtdPartition) {n : Nat} (h : n ≤ blockCount part) :
    n * part.eraseSize ≤ part.size := by
  have hsize := asInt32_le part.size
  have hmul := (Nat.le_div_iff_mul_le part.eraseSize_pos).mp h
  omega

/-! ## Writing -/

/-- The state of the medium behind a write context. -/
structure Wear where
  content : Content
  /-- How often each block was erased. -/
  erases : Nat → Nat

/-- The driver behind a write context. -/
def Medium.writeDriver (med : Medium) (part : MtdPartition) : Driver Wear where
  tell s := (true, s)
  seek _ s := (true, s)
  getBadBlock pos s := ((med.block (pos / part.eraseSize)).badBlock, s)
  erase start length s :=
    let i := start / part.eraseSize
    (((med.block i).attempt (s.erases i)).erases,
      ⟨s.content.overwrite start (med.left.read start length), Function.update s.erases i (s.erases i + 1)⟩)
  write pos data s :=
    let i := pos / part.eraseSize
    let attempt := (med.block i).attempt (s.erases i - 1)
    (attempt.programs, { s with content := s.content.overwrite pos ((attempt.held data).read 0 data.length) })
  read pos _ s :=
    let i := pos / part.eraseSize
    match ((med.block i).attempt (s.erases i - 1)).rereads with
    | .whole _ => (.whole fun j => s.content (pos + j), s)
    | .short moved => (.short moved, s)
  eccGetStats s := (some 0, s)
  close s := (true, s)

section
variable (med : Medium) (part : MtdPartition)

/-- Whole blocks are touched, and only those that are tried. -/
def TouchesTried (journal : List Event) : Prop :=
  ∀ e ∈ journal, ∀ pos length, e.touches = some (pos, length) →
    length = part.eraseSize ∧ ∃ i, pos = i * part.eraseSize ∧ (med.block i).tried = true

/-- From block `n` on nothing was erased, and the content is `c`. -/
structure Before (n : Nat) (c : Content) (fd : Fd Wear) : Prop where
  content : fd.state.content = c
  fresh : ∀ i, n ≤ i → fd.state.erases i = 0
  touches : TouchesTried med part fd.journal

/-- Block `n` was erased `t` times, and elsewhere the content is `c`. -/
structure Trying (n t : Nat) (c : Content) (fd : Fd Wear) : Prop where
  content : ∀ j, j < n * part.eraseSize ∨ n * part.eraseSize + part.eraseSize ≤ j → fd.state.content j = c j
  erases : fd.state.erases n = t
  fresh : ∀ i, n < i → fd.state.erases i = 0
  touches : TouchesTried med part fd.journal

variable {med part} {n t : Nat} {c : Content} {fd : Fd Wear}

theorem Before.trying (h : Before med part n c fd) : Trying med part n 0 c fd :=
  ⟨fun j _ => congrFun h.content j, h.fresh n (Nat.le_refl n),
    fun i hi => h.fresh i (Nat.le_of_lt hi), h.touches⟩

theorem TouchesTried.log {journal : List Event} (h : TouchesTried med part journal) {e : Event}
    (he : ∀ pos length, e.touches = some (pos, length) →
      length = part.eraseSize ∧ ∃ i, pos = i * part.eraseSize ∧ (med.block i).tried = true) :
    TouchesTried med part (journal ++ [e]) := by
  intro e' he'
  rcases List.mem_append.mp he' with he' | he'
  · exact h e' he'
  · obtain rfl := List.mem_singleton.mp he'
    exact he

theorem mul_div_eraseSize (part : MtdPartition) (n : Nat) :
    n * part.eraseSize / part.eraseSize = n :=
  Nat.mul_div_cancel n part.eraseSize_pos

/-- Erasing a block. -/
theorem Trying.erase (h : Trying med part n t c fd) (htried : (med.block n).tried = true) :
    (fd.erase (med.writeDriver part) (n * part.eraseSize) part.eraseSize).1 =
        ((med.block n).attempt t).erases ∧
      Trying med part n (t + 1) c (fd.erase (med.writeDriver part) (n * part.eraseSize) part.eraseSize).2 ∧
      (fd.erase (med.writeDriver part) (n * part.eraseSize) part.eraseSize).2.state.content =
        fd.state.content.overwrite (n * part.eraseSize)
          (med.left.read (n * part.eraseSize) part.eraseSize) := by
  have hi := mul_div_eraseSize part n
  refine ⟨by simp [Fd.erase, Medium.writeDriver, hi, h.erases],
    ⟨fun j hj => ?_, ?_, fun i hlt => ?_, ?_⟩, ?_⟩
  · have hout : fd.state.content.overwrite (n * part.eraseSize)
        (med.left.read (n * part.eraseSize) part.eraseSize) j = fd.state.content j := by
      rcases hj with hj | hj
      · exact Content.overwrite_before hj
      · exact Content.overwrite_after (by simpa using hj)
    exact hout.trans (h.content j hj)
  · simp [Fd.erase, Medium.writeDriver, hi, h.erases]
  · simp [Fd.erase, Medium.writeDriver, hi, Nat.ne_of_gt hlt, h.fresh i hlt]
  · refine h.touches.log fun pos length ht => ?_
    obtain ⟨rfl, rfl⟩ : n * part.eraseSize = pos ∧ part.eraseSize = length := by
      simpa [Event.touches] using ht
    exact ⟨rfl, n, rfl, htried⟩
  · rfl

/-- Programming a block that was erased. -/
theorem Trying.writeAt (h : Trying med part n (t + 1) c fd) (htried : (med.block n).tried = true)
    {data : Bytes} (hdata : data.length = part.eraseSize) :
    Trying med part n (t + 1) c (fd.writeAt (med.writeDriver part) (n * part.eraseSize) data) ∧
      (fd.writeAt (med.writeDriver part) (n * part.eraseSize) data).state.content.read (n * part.eraseSize)
        part.eraseSize = (((med.block n).attempt t).held data).read 0 part.eraseSize := by
  have hi := mul_div_eraseSize part n
  have hcontent : (fd.writeAt (med.writeDriver part) (n * part.eraseSize) data).state.content =
      fd.state.content.overwrite (n * part.eraseSize)
        ((((med.block n).attempt t).held data).read 0 part.eraseSize) := by
    simp [Fd.writeAt, Fd.seek, Fd.write, Medium.writeDriver, hi, h.erases, hdata]
  refine ⟨⟨fun j hj => ?_, h.erases, h.fresh, ?_⟩, ?_⟩
  · rw [hcontent]
    rcases hj with hj | hj
    · exact (Content.overwrite_before hj).trans (h.content j (.inl hj))
    · exact (Content.overwrite_after (by simpa using hj)).trans (h.content j (.inr hj))
  · refine h.touches.log fun pos length ht => ?_
    obtain ⟨rfl, rfl⟩ : n * part.eraseSize = pos ∧ data.length = length := by
      simpa [Event.touches, Fd.seek, Medium.writeDriver] using ht
    exact ⟨hdata, n, rfl, htried⟩
  · have hread := Content.read_overwrite fd.state.content (n * part.eraseSize)
      ((((med.block n).attempt t).held data).read 0 part.eraseSize)
    rw [Content.read_length] at hread
    rw [hcontent, hread]

/-- Reading a block back. -/
theorem Trying.readAt (h : Trying med part n (t + 1) c fd) :
    let r := fd.readAt (med.writeDriver part) (n * part.eraseSize) part.eraseSize
    r.1 = (match ((med.block n).attempt t).rereads with
        | .whole _ => some (fd.state.content.read (n * part.eraseSize) part.eraseSize)
        | .short _ => none) ∧
      r.2.state = fd.state ∧ Trying med part n (t + 1) c r.2 ∧
      (r.1 ≠ none → r.2.pos = n * part.eraseSize + part.eraseSize) := by
  have hi := mul_div_eraseSize part n
  have hstate : (fd.readAt (med.writeDriver part) (n * part.eraseSize) part.eraseSize).2.state =
      fd.state := by
    cases hreread : ((med.block n).attempt t).rereads <;>
      simp [Fd.readAt, Fd.seek, Fd.read, Medium.writeDriver, hi, h.erases, hreread]
  have htrying : Trying med part n (t + 1) c
      (fd.readAt (med.writeDriver part) (n * part.eraseSize) part.eraseSize).2 := by
    refine ⟨fun j hj => ?_, ?_, fun i hlt => ?_, ?_⟩
    · rw [hstate, h.content j hj]
    · rw [hstate, h.erases]
    · rw [hstate, h.fresh i hlt]
    · exact h.touches.log fun pos length ht => by simp [Event.touches] at ht
  refine ⟨?_, hstate, htrying, ?_⟩
  · cases hreread : ((med.block n).attempt t).rereads <;>
      simp [Fd.readAt, Fd.seek, Fd.read, Medium.writeDriver, hi, h.erases, hreread, Content.read]
  · cases hreread : ((med.block n).attempt t).rereads <;>
      simp [Fd.readAt, Fd.seek, Fd.read, Medium.writeDriver, hi, h.erases, hreread, Transfer.moves]

/-- One turn of the retry loop. -/
theorem Trying.tryBlock (h : Trying med part n t c fd) (htried : (med.block n).tried = true)
    {data : Bytes} (hdata : data.length = part.eraseSize) :
    let r := tryBlock (med.writeDriver part) part (n * part.eraseSize) data fd
    r.1 = ((med.block n).attempt t).lands data ∧ Trying med part n (t + 1) c r.2 ∧
      (r.1 = true → r.2.pos = n * part.eraseSize + part.eraseSize ∧
        r.2.state.content.read (n * part.eraseSize) part.eraseSize = data) := by
  obtain ⟨herases, herase, -⟩ := h.erase htried
  rw [Mtd.tryBlock]
  generalize fd.erase (med.writeDriver part) (n * part.eraseSize) part.eraseSize = r at herases herase
  obtain ⟨erased, fd₁⟩ := r
  obtain rfl : erased = ((med.block n).attempt t).erases := herases
  dsimp only at herase ⊢
  cases hok : ((med.block n).attempt t).erases with
  | false => exact ⟨by simp [Attempt.lands, hok], herase, by simp⟩
  | true =>
    obtain ⟨hwrite, hheld⟩ := herase.writeAt htried hdata
    obtain ⟨hverify, hstate, hread, hpos⟩ := hwrite.readAt
    rw [hheld] at hverify
    simp only [Bool.not_true, Bool.false_eq_true, ↓reduceIte]
    generalize (fd₁.writeAt (med.writeDriver part) (n * part.eraseSize) data).readAt
      (med.writeDriver part) (n * part.eraseSize) part.eraseSize = r at hverify hread hstate hpos
    obtain ⟨verify, fd₂⟩ := r
    dsimp only at hverify hread hstate hpos
    cases hreread : ((med.block n).attempt t).rereads with
    | short moved =>
      rw [hreread] at hverify
      obtain rfl : verify = none := hverify
      exact ⟨by simp [Attempt.lands, hok, hreread], hread, by simp⟩
    | whole =>
      rw [hreread] at hverify
      obtain rfl : verify = some ((((med.block n).attempt t).held data).read 0 part.eraseSize) := hverify
      refine ⟨by simp [Attempt.lands, hok, hreread, hdata, eq_comm], hread,
        fun hsame => ⟨hpos (by simp), ?_⟩⟩
      rw [hstate, hheld]
      exact (of_decide_eq_true hsame).symm

/-- The addresses of a block. -/
theorem div_eraseSize_eq_iff (part : MtdPartition) {j n : Nat} :
    j / part.eraseSize = n ↔ n * part.eraseSize ≤ j ∧ j < n * part.eraseSize + part.eraseSize := by
  rw [← Nat.le_div_iff_mul_le part.eraseSize_pos, ← Nat.succ_mul,
    ← Nat.div_lt_iff_lt_mul part.eraseSize_pos]
  omega

variable (med part) in
/-- The content after the blocks from `n` to `i` were passed over: those that were tried are
left as an erase leaves them. -/
def passed (n i : Nat) (c : Content) : Content := fun j =>
  if n ≤ j / part.eraseSize ∧ j / part.eraseSize < i ∧ (med.block (j / part.eraseSize)).tried = true
  then med.left j else c j

theorem passed_self (n : Nat) (c : Content) : passed med part n n c = c := by
  funext j
  exact if_neg fun h => by omega

theorem passed_of_not_tried (h : (med.block n).tried = false) (c : Content) :
    passed med part n (n + 1) c = c := by
  funext j
  refine if_neg fun hj => ?_
  have hn : j / part.eraseSize = n := by omega
  rw [hn, h] at hj
  exact Bool.false_ne_true hj.2.2

theorem passed_of_tried (h : (med.block n).tried = true) (c : Content) :
    passed med part n (n + 1) c =
      c.overwrite (n * part.eraseSize) (med.left.read (n * part.eraseSize) part.eraseSize) := by
  refine Content.eq_overwrite ?_ fun j hj => if_neg fun hin => ?_
  · rw [Content.read_length]
    refine List.map_congr_left fun i hi => if_pos ?_
    have hn : (n * part.eraseSize + i) / part.eraseSize = n :=
      (div_eraseSize_eq_iff part).mpr ⟨Nat.le_add_right _ _, Nat.add_lt_add_left (List.mem_range.mp hi) _⟩
    rw [hn]
    exact ⟨Nat.le_refl n, Nat.lt_succ_self n, h⟩
  · rw [Content.read_length] at hj
    have hn := (div_eraseSize_eq_iff part).mp (show j / part.eraseSize = n by omega)
    omega

theorem passed_passed {i : Nat} (h : n < i) (c : Content) :
    passed med part (n + 1) i (passed med part n (n + 1) c) = passed med part n i c := by
  funext j
  simp only [passed]
  by_cases htried : (med.block (j / part.eraseSize)).tried = true
  · by_cases hrest : n + 1 ≤ j / part.eraseSize ∧ j / part.eraseSize < i
    · rw [if_pos ⟨hrest.1, hrest.2, htried⟩, if_pos ⟨by omega, hrest.2, htried⟩]
    · rw [if_neg fun hin => hrest ⟨hin.1, hin.2.1⟩]
      by_cases hself : j / part.eraseSize = n
      · rw [if_pos ⟨by omega, by omega, htried⟩, if_pos ⟨by omega, by omega, htried⟩]
      · rw [if_neg fun hin => hself (by omega), if_neg fun hin => by omega]
  · simp [htried]

/-- After a success the descriptor is behind the block. -/
theorem Trying.wrote (h : Trying med part n t c fd) {data : Bytes}
    (hdata : data.length = part.eraseSize)
    (hread : fd.state.content.read (n * part.eraseSize) part.eraseSize = data) (pos : Nat) :
    Before med part (n + 1) (c.overwrite (n * part.eraseSize) data) (fd.log (.wroteBlock pos)) where
  content := Content.eq_overwrite (by rw [hdata]; exact hread) (by rw [hdata]; exact h.content)
  fresh i hi := h.fresh i hi
  touches := h.touches.log fun pos length ht => by simp [Event.touches] at ht

/-- Giving up on a block. -/
theorem Trying.giveUp (h : Trying med part n t c fd) (htried : (med.block n).tried = true) :
    Before med part (n + 1) (passed med part n (n + 1) c)
      (fd.erase (med.writeDriver part) (n * part.eraseSize) part.eraseSize).2 := by
  obtain ⟨-, herase, hcontent⟩ := h.erase htried
  refine ⟨?_, fun i hi => herase.fresh i hi, herase.touches⟩
  rw [passed_of_tried htried]
  refine Content.eq_overwrite ?_ (by rw [Content.read_length]; exact herase.content)
  rw [hcontent, Content.read_overwrite]

theorem retryBlock_trying (h : Trying med part n 0 c fd) (htried : (med.block n).tried = true)
    {data : Bytes} (hdata : data.length = part.eraseSize) :
    let r := retryBlock (med.writeDriver part) part (n * part.eraseSize) data 2 fd
    r.1 = (med.block n).takes data ∧
      if r.1 then
        Before med part (n + 1) (c.overwrite (n * part.eraseSize) data) r.2 ∧
          r.2.pos = (n + 1) * part.eraseSize
      else Trying med part n 2 c r.2 := by
  obtain ⟨hok, htry, hdone⟩ := h.tryBlock htried hdata
  rw [retryBlock]
  generalize tryBlock (med.writeDriver part) part (n * part.eraseSize) data fd = r at hok htry hdone
  obtain ⟨ok, fd₁⟩ := r
  cases ok with
  | true =>
    obtain ⟨hpos, hread⟩ := hdone rfl
    refine ⟨by simp [Block.takes, htried, ← hok], htry.wrote hdata hread _, ?_⟩
    rw [Nat.succ_mul]
    exact hpos
  | false =>
    obtain ⟨hok', htry', hdone'⟩ := htry.tryBlock htried hdata
    dsimp only
    rw [retryBlock]
    generalize tryBlock (med.writeDriver part) part (n * part.eraseSize) data fd₁ = r at hok' htry' hdone'
    obtain ⟨ok', fd₂⟩ := r
    cases ok' with
    | true =>
      obtain ⟨hpos, hread⟩ := hdone' rfl
      refine ⟨by simp [Block.takes, htried, ← hok'], htry'.wrote hdata hread _, ?_⟩
      rw [Nat.succ_mul]
      exact hpos
    | false => exact ⟨by simp [retryBlock, Block.takes, ← hok, ← hok'], htry'⟩

/-- Asking about a block. -/
theorem Before.getBadBlock (h : Before med part n c fd) (pos : Nat) :
    Before med part n c (fd.getBadBlock (med.writeDriver part) pos).2 :=
  ⟨h.content, h.fresh, h.touches.log fun pos length ht => by simp [Event.touches] at ht⟩

/-- The loop of `write_block` gets from the beginning of each of the first `m` blocks to the next
one. -/
def Positions.Steps (positions : Positions) (part : MtdPartition) (m : Nat) : Prop :=
  ∀ n < m, positions.fits (n * part.eraseSize) ∧ positions.next (n * part.eraseSize) = (n + 1) * part.eraseSize

theorem Positions.unbounded_steps (part : MtdPartition) : (unbounded part).Steps part (blockCount part) :=
  fun n hn => ⟨(end_le_size_iff part n).mpr hn, (Nat.succ_mul n part.eraseSize).symm⟩

theorem Positions.unbounded_stops (part : MtdPartition) :
    ¬ (unbounded part).fits (blockCount part * part.eraseSize) :=
  fun hfits => Nat.lt_irrefl _ ((end_le_size_iff part _).mp hfits)

section
variable {positions : Positions} {m : Nat}

variable (med part positions m) in
/-- The result `r` of writing `data` on the content `c`, from block `n` on: the data went to the
first block that takes them, or there is none before the loop stops at block `m`. -/
def WritesNext (data : Bytes) (n : Nat) (c : Content) (r : Int × BlockWriter Wear) : Prop :=
  match Picks.first (fun i => (med.block i).takes data) m n with
  | some i => r.1 = 0 ∧ r.2.fd.pos = (i + 1) * part.eraseSize ∧
    Before med part (i + 1) ((passed med part n i c).overwrite (i * part.eraseSize) data) r.2.fd
  | none => ¬ positions.fits (m * part.eraseSize) → r.1 = -1

/-- Behind the last block nothing is written. -/
theorem WritesNext.past {data : Bytes} {r : Int × BlockWriter Wear} (hn : m ≤ n)
    (hr : ¬ positions.fits (m * part.eraseSize) → r.1 = -1) :
    WritesNext med part positions m data n c r := by
  rw [WritesNext, Picks.first_of_ge hn]
  exact hr

/-- A block that does not take the data is passed over. -/
theorem WritesNext.skip {data : Bytes} {r : Int × BlockWriter Wear} (hn : n < m)
    (htakes : (med.block n).takes data = false)
    (h : WritesNext med part positions m data (n + 1) (passed med part n (n + 1) c) r) :
    WritesNext med part positions m data n c r := by
  rw [WritesNext] at h ⊢
  rw [Picks.first_of_neg (p := fun i => (med.block i).takes data) hn htakes]
  cases hfirst : Picks.first (fun i => (med.block i).takes data) m (n + 1) with
  | none =>
    rw [hfirst] at h
    exact h
  | some i =>
    have hlt : n < i := (Picks.first_spec hfirst).1
    rw [hfirst] at h
    dsimp only at h ⊢
    rw [passed_passed hlt] at h
    exact h

/-- A turn of `write_block` at block `n`: the block takes the data, or the loop goes on behind
it. -/
theorem writeBlockFromBy_turn (hsteps : positions.Steps part m) {data : Bytes} (hdata : data.length = part.eraseSize)
    (fuel : Nat) {w : BlockWriter Wear} (h : Before med part n c w.fd) (hn : n < m) :
    let r := writeBlockFromBy (med.writeDriver part) part positions data (fuel + 1) (n * part.eraseSize) w
    if (med.block n).takes data then
      r.1 = 0 ∧ r.2.fd.pos = (n + 1) * part.eraseSize ∧
        Before med part (n + 1) (c.overwrite (n * part.eraseSize) data) r.2.fd
    else
      ∃ w' : BlockWriter Wear, Before med part (n + 1) (passed med part n (n + 1) c) w'.fd ∧
        r = writeBlockFromBy (med.writeDriver part) part positions data fuel ((n + 1) * part.eraseSize) w' := by
  obtain ⟨hfits, hnext⟩ := hsteps n hn
  rw [writeBlockFromBy, if_pos hfits, hnext]
  have hquery := h.getBadBlock (n * part.eraseSize)
  have hanswer : (w.fd.getBadBlock (med.writeDriver part) (n * part.eraseSize)).1 =
      (med.block n).badBlock := by
    simp [Fd.getBadBlock, Medium.writeDriver, mul_div_eraseSize]
  generalize w.fd.getBadBlock (med.writeDriver part) (n * part.eraseSize) = r at hquery hanswer
  obtain ⟨answer, fd₁⟩ := r
  dsimp only at hquery hanswer ⊢
  rw [hanswer]
  cases htried : (med.block n).tried with
  | false =>
    have hnot : ¬ ((med.block n).badBlock = .good ∨ (med.block n).badBlock = .unsupported) := by
      simpa [Block.tried] using htried
    rw [if_neg (by simp [Block.takes, htried]),
      if_pos ⟨fun hgood => hnot (.inl hgood), fun hun => hnot (.inr hun)⟩]
    refine ⟨_, ?_, rfl⟩
    rw [passed_of_not_tried htried]
    exact ⟨hquery.content, fun i hi => hquery.fresh i (Nat.le_of_lt hi), hquery.touches⟩
  | true =>
    have hgood : (med.block n).badBlock = .good ∨ (med.block n).badBlock = .unsupported := by
      simpa [Block.tried] using htried
    rw [if_neg (c := _ ∧ _) (by rintro ⟨h₁, h₂⟩; exact hgood.elim h₁ h₂)]
    obtain ⟨hok, hretry⟩ := retryBlock_trying hquery.trying htried hdata
    rw [← hok]
    generalize retryBlock (med.writeDriver part) part (n * part.eraseSize) data 2 fd₁ = r at hretry
    obtain ⟨ok, fd₂⟩ := r
    cases ok with
    | true => exact ⟨rfl, hretry.2, hretry.1⟩
    | false => exact ⟨_, Trying.giveUp hretry htried, rfl⟩

/-- The loop of `write_block`. -/
theorem writeBlockFromBy_medium (hsteps : positions.Steps part m) {data : Bytes}
    (hdata : data.length = part.eraseSize) (fuel : Nat) :
    ∀ (n : Nat) (c : Content) (w : BlockWriter Wear), Before med part n c w.fd → n ≤ m → m - n ≤ fuel →
      WritesNext med part positions m data n c
        (writeBlockFromBy (med.writeDriver part) part positions data fuel (n * part.eraseSize) w) := by
  induction fuel with
  | zero => exact fun n c w h hnm hfuel => .past (by omega) fun _ => rfl
  | succ fuel ih =>
    intro n c w h hnm hfuel
    rcases Nat.lt_or_eq_of_le hnm with hn | rfl
    · have hturn := writeBlockFromBy_turn hsteps hdata fuel h hn
      cases htakes : (med.block n).takes data with
      | true =>
        rw [htakes] at hturn
        rw [WritesNext, Picks.first_of_pos (p := fun i => (med.block i).takes data) hn htakes]
        dsimp only
        rw [passed_self]
        exact hturn
      | false =>
        rw [htakes] at hturn
        obtain ⟨w', hbefore, hgoes⟩ := hturn
        rw [hgoes]
        exact .skip hn htakes (ih (n + 1) _ w' hbefore hn (by omega))
    · refine .past (Nat.le_refl n) fun hstops => ?_
      rw [writeBlockFromBy, if_neg hstops]

theorem writeBlockBy_medium (hsteps : positions.Steps part m) (hm : m ≤ part.size + 1) {data : Bytes}
    (hdata : data.length = part.eraseSize) {w : BlockWriter Wear} (h : Before med part n c w.fd) (hnm : n ≤ m)
    (hpos : w.fd.pos = n * part.eraseSize) :
    WritesNext med part positions m data n c (writeBlockBy (med.writeDriver part) part positions data w) := by
  have hcall := writeBlockFromBy_medium hsteps hdata (part.size + 1) n c w h hnm ((Nat.sub_le _ _).trans hm)
  rw [← hpos] at hcall
  exact hcall

end

theorem writeBlock_medium {data : Bytes} (hdata : data.length = part.eraseSize) {w : BlockWriter Wear}
    (h : Before med part n c w.fd) (hn : n ≤ blockCount part) (hpos : w.fd.pos = n * part.eraseSize) :
    WritesNext med part (.unbounded part) (blockCount part) data n c (writeBlock (med.writeDriver part) part data w) :=
  writeBlockBy_medium (Positions.unbounded_steps part) ((blockCount_le part).trans (Nat.le_succ _)) hdata h hn hpos

/-- The blocks `bs` were stored at the numbers `ps`. What else has changed is as an erase
leaves it, in blocks that were tried. -/
structure Stored (med : Medium) (part : MtdPartition) (ps : List Nat) (bs : List Bytes)
    (c c' : Content) :
    Prop where
  holds : ps.map (fun i => c'.read (i * part.eraseSize) part.eraseSize) = bs
  others : ∀ j, j / part.eraseSize ∉ ps →
    c' j = c j ∨ (med.block (j / part.eraseSize)).tried = true ∧ c' j = med.left j

/-- The block that was stored at a number. -/
theorem Stored.block {ps : List Nat} {bs : List Bytes} {c c' : Content}
    (h : Stored med part ps bs c c') {j i : Nat}
    (hi : ps[j]? = some i) (hj : j < bs.length) : c'.read (i * part.eraseSize) part.eraseSize = bs[j] := by
  have hget := congrArg (fun bs => bs[j]?) h.holds
  rw [List.getElem?_map, hi, List.getElem?_eq_getElem hj] at hget
  exact Option.some.inj hget

theorem read_congr {c c' : Content} (h : ∀ j, j / part.eraseSize = n → c' j = c j) :
    c'.read (n * part.eraseSize) part.eraseSize = c.read (n * part.eraseSize) part.eraseSize :=
  Content.read_congr fun j hge hlt => h j ((div_eraseSize_eq_iff part).mpr ⟨hge, hlt⟩)

/-- A block is stored behind those that are passed over. -/
theorem overwrite_passed {i j : Nat} {b : Bytes} (hb : b.length = part.eraseSize)
    (hj : j / part.eraseSize ≠ i) (c : Content) :
    (passed med part n i c).overwrite (i * part.eraseSize) b j = passed med part n i c j := by
  rw [Ne, div_eraseSize_eq_iff] at hj
  rcases Nat.lt_or_ge j (i * part.eraseSize) with hbefore | hafter
  · exact Content.overwrite_before hbefore
  · exact Content.overwrite_after (by omega)

/-- The blocks that are written from block `n` on. -/
theorem writeBlocks_medium {positions : Positions} {m : Nat} (hsteps : positions.Steps part m)
    (hm : m ≤ part.size + 1) {bs : List Bytes} :
    ∀ {n : Nat} {c : Content} {w : BlockWriter Wear},
      (∀ b ∈ bs, b.length = part.eraseSize) → Before med part n c w.fd →
      w.fd.pos = n * part.eraseSize → n ≤ m →
      match Picks.picks (fun b i => (med.block i).takes b) m n bs with
      | some ps => ∃ w' n' c',
        writeBlocks (writeBlockBy (med.writeDriver part) part positions) bs w = some w' ∧
        Before med part n' c' w'.fd ∧ w'.fd.pos = n' * part.eraseSize ∧ n' ≤ m ∧
        Stored med part ps bs c c' ∧ ∀ j, j / part.eraseSize < n → c' j = c j
      | none => ¬ positions.fits (m * part.eraseSize) →
        writeBlocks (writeBlockBy (med.writeDriver part) part positions) bs w = none := by
  induction bs with
  | nil =>
    intro n c w _ h hpos hn
    exact ⟨w, n, c, rfl, h, hpos, hn, ⟨rfl, fun j _ => .inl rfl⟩, fun j _ => rfl⟩
  | cons b bs ih =>
    intro n c w hbs h hpos hn
    have hb := hbs b List.mem_cons_self
    have hwrite := writeBlockBy_medium hsteps hm hb h hn hpos
    rw [WritesNext] at hwrite
    rw [Picks.picks]
    cases hfirst : Picks.first (fun i => (med.block i).takes b) m n with
    | none =>
      rw [hfirst] at hwrite
      intro hstops
      exact writeBlocks_cons_of_fails (by rw [hwrite hstops]; decide)
    | some i =>
      obtain ⟨hni, hiN, -⟩ := Picks.first_spec hfirst
      rw [hfirst] at hwrite
      obtain ⟨hret, hpos', hbefore⟩ := hwrite
      have hrest := ih (fun b' hb' => hbs b' (List.mem_cons_of_mem _ hb')) hbefore hpos' hiN
      rw [Option.bind_some, writeBlocks_cons hret]
      cases hpicks : Picks.picks (fun b i => (med.block i).takes b) m (i + 1) bs with
      | none =>
        rw [hpicks] at hrest
        exact hrest
      | some ps =>
        rw [hpicks] at hrest
        obtain ⟨w', n', c', hblocks, hbefore', hpos'', hn', hstored, hframe⟩ := hrest
        refine ⟨w', n', c', hblocks, hbefore', hpos'', hn', ⟨?_, fun j hj => ?_⟩, fun j hj => ?_⟩
        · have hself : c'.read (i * part.eraseSize) part.eraseSize = b := by
            rw [read_congr (n := i) fun j hj => hframe j (by omega), ← hb, Content.read_overwrite]
          rw [List.map_cons, hself, hstored.holds]
        · rw [List.mem_cons, not_or] at hj
          rcases hstored.others j hj.2 with hsame | hleft
          · rw [hsame, overwrite_passed hb hj.1, passed]
            split
            · rename_i hin
              exact .inr ⟨hin.2.2, rfl⟩
            · exact .inl rfl
          · exact .inr hleft
        · rw [hframe j (by omega), overwrite_passed hb (by omega), passed, if_neg (by omega)]

/-- The number of blocks from the position `pos` on, as `mtd_erase_blocks` computes it. -/
def blocksBehind (part : MtdPartition) (pos : Nat) : Nat :=
  (((part.size : Int) - pos) % 2 ^ 32).toNat / part.eraseSize

theorem blocksBehind_lt {part : MtdPartition} {pos : Nat} (hpos : pos ≤ part.size) (hsize : part.size < 2 ^ 31) :
    blocksBehind part pos < 2 ^ 31 := by
  refine Nat.lt_of_le_of_lt (Nat.div_le_self _ _) ?_
  omega

/-- Closing erases nothing. -/
theorem writeCloseBy_flushed (med : Medium) (part : MtdPartition)
    (writeBlock : Bytes → BlockWriter Wear → Int × BlockWriter Wear) (ctx : WriteContext Wear) :
    let r := flushPendingBy part writeBlock ctx
    let s := writeCloseBy (med.writeDriver part) part writeBlock ctx
    s.2.writer.fd = r.2.writer.fd ∧ (r.1 ≠ 0 → s.1 = -1) ∧
      (r.1 = 0 → blocksBehind part r.2.writer.fd.pos < 2 ^ 31 → s.1 = 0) := by
  rw [writeCloseBy, eraseBlocksBy]
  generalize flushPendingBy part writeBlock ctx = r
  obtain ⟨ret, ⟨w, buffer⟩⟩ := r
  dsimp only
  by_cases hret : ret ≠ 0
  · rw [if_pos hret]
    exact ⟨rfl, fun _ => if_pos (.inl rfl), fun h => absurd h hret⟩
  rw [if_neg hret]
  simp only [Fd.tell, Medium.writeDriver, Bool.not_true, Bool.false_eq_true, ↓reduceIte,
    Int.lt_irrefl, Int.toNat_zero, eraseBlocksFrom, Fd.close]
  by_cases htotal : (0 : Int) > asInt32 ((((part.size : Int) - w.fd.pos) % 2 ^ 32).toNat / part.eraseSize)
  · rw [if_pos htotal]
    refine ⟨rfl, fun h => absurd h hret, fun _ hblocks => ?_⟩
    rw [blocksBehind] at hblocks
    rw [asInt32_of_lt hblocks] at htotal
    exact absurd htotal (Int.not_lt.mpr (Int.natCast_nonneg _))
  · rw [if_neg htotal]
    refine ⟨rfl, fun h => absurd h hret, fun _ _ => if_neg ?_⟩
    rintro (hneg | hfalse)
    · omega
    · simp at hfalse

/-- The numbers of the blocks before number `m` that take the blocks `bs`, one after the other. -/
def takersBelow (m : Nat) (block : Nat → Block) (bs : List Bytes) : Option (List Nat) :=
  Picks.picks (fun b i => (block i).takes b) m 0 bs

/-- Those in the partition. -/
def takers (part : MtdPartition) (block : Nat → Block) (bs : List Bytes) : Option (List Nat) :=
  takersBelow (blockCount part) block bs

/-- The blocks that are written through a fresh context. -/
theorem writeBlocksBy_fresh (med : Medium) (part : MtdPartition) {positions : Positions} {m : Nat}
    (hsteps : positions.Steps part m) (hm : m ≤ part.size + 1) {bs : List Bytes}
    (hbs : ∀ b ∈ bs, b.length = part.eraseSize) (c : Content) :
    match takersBelow m med.block bs with
    | some ps => ∃ w', writeBlocks (writeBlockBy (med.writeDriver part) part positions) bs
        (writePartition ⟨c, fun _ => 0⟩).writer = some w' ∧
      w'.fd.pos ≤ m * part.eraseSize ∧ Stored med part ps bs c w'.fd.state.content ∧ TouchesTried med part w'.fd.journal
    | none => ¬ positions.fits (m * part.eraseSize) → writeBlocks (writeBlockBy (med.writeDriver part) part positions) bs
        (writePartition ⟨c, fun _ => 0⟩).writer = none := by
  have hfresh : Before med part 0 c (writePartition (⟨c, fun _ => 0⟩ : Wear)).writer.fd :=
    ⟨rfl, fun _ _ => rfl, fun e he => by simp [writePartition] at he⟩
  have hblocks := writeBlocks_medium hsteps hm hbs hfresh (Nat.zero_mul _).symm (Nat.zero_le _)
  rw [← takersBelow] at hblocks
  cases htakers : takersBelow m med.block bs with
  | none =>
    rw [htakers] at hblocks
    exact hblocks
  | some ps =>
    rw [htakers] at hblocks
    obtain ⟨w', n', c', hw', hbefore, hpos', hn', hstored, -⟩ := hblocks
    refine ⟨w', hw', ?_, ?_, hbefore.touches⟩
    · rw [hpos']
      exact Nat.mul_le_mul_right _ hn'
    · rw [hbefore.content]
      exact hstored

theorem writeBlocks_fresh (med : Medium) (part : MtdPartition) {bs : List Bytes}
    (hbs : ∀ b ∈ bs, b.length = part.eraseSize) (c : Content) :
    match takers part med.block bs with
    | some ps => ∃ w', writeBlocks (writeBlock (med.writeDriver part) part) bs (writePartition ⟨c, fun _ => 0⟩).writer =
        some w' ∧
      w'.fd.pos ≤ part.size ∧ Stored med part ps bs c w'.fd.state.content ∧ TouchesTried med part w'.fd.journal
    | none => writeBlocks (writeBlock (med.writeDriver part) part) bs (writePartition ⟨c, fun _ => 0⟩).writer = none := by
  have hblocks := writeBlocksBy_fresh med part (Positions.unbounded_steps part)
    ((blockCount_le part).trans (Nat.le_succ _)) hbs c
  rw [← takers] at hblocks
  cases htakers : takers part med.block bs with
  | none =>
    rw [htakers] at hblocks
    exact hblocks (Positions.unbounded_stops part)
  | some ps =>
    rw [htakers] at hblocks
    obtain ⟨w', hw', hend, hstored⟩ := hblocks
    exact ⟨w', hw', hend.trans (blockCount_mul_le part (Nat.le_refl _)), hstored⟩

/-- The calls on a fresh context and its close hand on the blocks of the string. -/
theorem writeAllBy_hands (med : Medium) (part : MtdPartition)
    (writeBlockOf : Bytes → BlockWriter Wear → Int × BlockWriter Wear) (calls : List Bytes) (state : Wear) :
    let r := writeAllBy (med.writeDriver part) part writeBlockOf calls state
    match writeBlocks writeBlockOf (Blocks.padded part.eraseSize 0 calls.flatten) (writePartition state).writer with
    | some w' => r.2.writer.fd = w'.fd ∧
      (blocksBehind part w'.fd.pos < 2 ^ 31 → r.1 = calls.map (fun data => (data.length : Int)) ++ [0])
    | none => -1 ∈ r.1 := by
  have hopened : writePartition state = ⟨(writePartition state).writer, []⟩ := rfl
  have hcalls := writeCallsBy_flushPendingBy part writeBlockOf calls (writePartition state).writer
  rw [← hopened] at hcalls
  have hclose := writeCloseBy_flushed med part writeBlockOf (writeCallsBy part writeBlockOf calls (writePartition state)).2
  dsimp only at hcalls hclose ⊢
  rw [writeAllBy]
  generalize writeCallsBy part writeBlockOf calls (writePartition state) = r at hcalls hclose
  obtain ⟨rets, ctx⟩ := r
  dsimp only at hcalls hclose ⊢
  generalize writeCloseBy (med.writeDriver part) part writeBlockOf ctx = s at hclose
  obtain ⟨ret, ctx'⟩ := s
  obtain ⟨hfd, hfails, hdone⟩ := hclose
  dsimp only at hfd hfails hdone ⊢
  cases hblocks : writeBlocks writeBlockOf (Blocks.padded part.eraseSize 0 calls.flatten) (writePartition state).writer with
  | none =>
    rw [hblocks] at hcalls
    rcases hcalls with hcall | hflush
    · exact List.mem_append_left _ hcall
    · rw [hfails (by rw [hflush]; decide)]
      exact List.mem_append_right _ (List.mem_singleton.mpr rfl)
  | some w' =>
    rw [hblocks] at hcalls
    obtain ⟨hrets, hflush⟩ := hcalls
    rw [hflush] at hfd hdone
    refine ⟨hfd, fun hleft => ?_⟩
    rw [hrets, hdone rfl hleft]

/-- What the calls on a fresh context and its close make of a medium, over a `write_block` that
does with the blocks of the string what `writeBlock` does. -/
theorem writeAllBy_medium (med : Medium) (part : MtdPartition) (calls : List Bytes) (c : Content)
    {writeBlockOf : Bytes → BlockWriter Wear → Int × BlockWriter Wear}
    (hsame : writeBlocks writeBlockOf (Blocks.padded part.eraseSize 0 calls.flatten)
        (writePartition ⟨c, fun _ => 0⟩).writer =
      writeBlocks (writeBlock (med.writeDriver part) part) (Blocks.padded part.eraseSize 0 calls.flatten)
        (writePartition ⟨c, fun _ => 0⟩).writer) :
    let r := writeAllBy (med.writeDriver part) part writeBlockOf calls ⟨c, fun _ => 0⟩
    let bs := Blocks.padded part.eraseSize 0 calls.flatten
    match takers part med.block bs with
    | some ps => (part.size < 2 ^ 31 → r.1 = calls.map (fun data => (data.length : Int)) ++ [0]) ∧
      Stored med part ps bs c r.2.writer.fd.state.content ∧ TouchesTried med part r.2.writer.fd.journal
    | none => -1 ∈ r.1 := by
  have hpos := part.eraseSize_pos
  have hblocks := writeBlocks_fresh med part
    (fun b (hb : b ∈ Blocks.padded part.eraseSize 0 calls.flatten) => Blocks.length_of_mem_padded hpos hb) c
  have hall := writeAllBy_hands med part writeBlockOf calls ⟨c, fun _ => 0⟩
  dsimp only at hall ⊢
  rw [hsame] at hall
  cases htakers : takers part med.block (Blocks.padded part.eraseSize 0 calls.flatten) with
  | none =>
    rw [htakers] at hblocks
    rw [hblocks] at hall
    exact hall
  | some ps =>
    rw [htakers] at hblocks
    obtain ⟨w', hw', hend, hstored, htouches⟩ := hblocks
    rw [hw'] at hall
    obtain ⟨hfd, hrets⟩ := hall
    refine ⟨fun hsize => hrets (blocksBehind_lt hend hsize), ?_, ?_⟩
    · rw [hfd]
      exact hstored
    · rw [hfd]
      exact htouches

theorem writeAll_medium (med : Medium) (part : MtdPartition) (calls : List Bytes) (c : Content) :
    let r := writeAll (med.writeDriver part) part calls ⟨c, fun _ => 0⟩
    let bs := Blocks.padded part.eraseSize 0 calls.flatten
    match takers part med.block bs with
    | some ps => (part.size < 2 ^ 31 → r.1 = calls.map (fun data => (data.length : Int)) ++ [0]) ∧
      Stored med part ps bs c r.2.writer.fd.state.content ∧ TouchesTried med part r.2.writer.fd.journal
    | none => -1 ∈ r.1 :=
  writeAllBy_medium med part calls c rfl

end

end LinuxOta.Mtd
