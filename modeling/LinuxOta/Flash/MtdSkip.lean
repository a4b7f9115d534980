-- SUMMARY: `mtd_read_skip_to` among calls of `mtd_read_data`: a read context is a cursor over the blocks that are delivered.
import LinuxOta.Flash.MtdLaw

namespace LinuxOta.Mtd

/-! # mtd_read_skip_to -/

/-- `mtd_read_skip_to`. What is left in the buffer of the context stays there. -/
def readSkipTo {σ : Type} (dev : Driver σ) (offset : Nat) (ctx : ReadContext σ) : ReadContext σ :=
  { ctx with fd := (ctx.fd.seek dev offset).2 }

/-- A call on a read context. -/
inductive ReadCall where
  | readData (len : Nat)
  | skipTo (offset : Nat)

/-- What a sequence of calls reads, up to the first that fails. -/
def runReads {σ : Type} (dev : Driver σ) (part : MtdPartition) :
    List ReadCall → ReadContext σ → List (Option Bytes)
  | [], _ => []
  | .readData len :: calls, ctx =>
    match readData dev part len ctx with
    | (none, _) => [none]
    | (some data, ctx) => some data :: runReads dev part calls ctx
  | .skipTo offset :: calls, ctx => runReads dev part calls (readSkipTo dev offset ctx)

/-! ## Cursors -/

/-- The bytes that were fetched and not asked for yet, and the block from which the next one is
looked for. -/
structure Cursor where
  pending : Bytes
  next : Nat

section
variable (part : MtdPartition) (delivers : Nat → Bool) (c : Content)

/-- As many blocks are fetched as the call needs, the first ones that are delivered. -/
def Cursor.read (len : Nat) (s : Cursor) : Option (Bytes × Cursor) :=
  let need := Blocks.count part.eraseSize (len - s.pending.length)
  let found := Picks.all delivers (blockCount part) s.next
  if need ≤ found.length then
    let bytes := s.pending ++ ((found.take need).map fun i => c.read (i * part.eraseSize) part.eraseSize).flatten
    some (bytes.take len, ⟨bytes.drop len, Picks.behind s.next (found.take need)⟩)
  else none

def Cursor.skipTo (block : Nat) (s : Cursor) : Cursor := { s with next := block }

def Cursor.run : List ReadCall → Cursor → List (Option Bytes)
  | [], _ => []
  | .readData len :: calls, s =>
    match s.read part delivers c len with
    | none => [none]
    | some (data, s) => some data :: Cursor.run calls s
  | .skipTo offset :: calls, s => Cursor.run calls (s.skipTo (offset / part.eraseSize))

end

/-! ## Read contexts -/

section
variable {med : Medium} {part : MtdPartition} {n : Nat}

/-- The descriptor behind the next `k` blocks. -/
theorem readBlocks_behind (k : Nat) :
    ∀ {n : Nat} {fd fd' : Fd Scan} {blocks : List Bytes}, fd.pos = n * part.eraseSize →
      readBlocks (med.readDriver part) part k fd = some (blocks, fd') →
      fd'.pos = Picks.behind n ((Picks.all (fun i => (med.block i).delivers) (blockCount part) n).take k) *
          part.eraseSize ∧
        fd'.state.content = fd.state.content := by
  induction k with
  | zero =>
    intro n fd fd' blocks hpos h
    obtain ⟨-, rfl⟩ := Prod.mk.inj (Option.some.inj h)
    exact ⟨hpos, rfl⟩
  | succ k ih =>
    intro n fd fd' blocks hpos h
    have hblock := readBlock_medium med hpos
    rw [ReadsNext] at hblock
    rw [Picks.all_eq]
    cases hfirst : Picks.first (fun i => (med.block i).delivers) (blockCount part) n with
    | none =>
      rw [hfirst] at hblock
      rw [readBlocks_succ_of_fails _ _ hblock] at h
      cases h
    | some i =>
      rw [hfirst] at hblock
      obtain ⟨hdata, hpos', hcontent⟩ := hblock
      rw [readBlocks_succ _ _ hdata] at h
      obtain ⟨⟨rest, fd₁⟩, hrest, heq⟩ := Option.map_eq_some_iff.mp h
      obtain ⟨-, rfl⟩ := Prod.mk.inj heq
      obtain ⟨hend, hsame⟩ := ih hpos' hrest
      exact ⟨hend, hsame.trans hcontent⟩

/-- The context is where the cursor is, on the content `c`. -/
structure Follows (part : MtdPartition) (c : Content) (ctx : ReadContext Scan) (s : Cursor) : Prop where
  pending : Pending part ctx ctx.fd s.pending
  pos : ctx.fd.pos = s.next * part.eraseSize
  content : ctx.fd.state.content = c

variable {c : Content} {ctx : ReadContext Scan} {s : Cursor}

theorem follows_readPartition (part : MtdPartition) (c : Content) (failed : Nat) :
    Follows part c (readPartition part ⟨c, failed⟩) ⟨[], 0⟩ where
  pending := pending_readPartition _
  pos := (Nat.zero_mul _).symm
  content := rfl

variable (med) in
/-- A call of `mtd_read_data` moves the context as the cursor moves. -/
theorem Follows.readData (h : Follows part c ctx s) {len : Nat} (hlen : len < 2 ^ 31) :
    let r := readData (med.readDriver part) part len ctx
    match s.read part (fun i => (med.block i).delivers) c len with
    | some (data, s') => r.1 = some data ∧ Follows part c r.2 s'
    | none => r.1 = none := by
  have hcall := readData_reads (med.readDriver part) hlen h.pending
  have hblocks := readBlocks_medium med (Blocks.count part.eraseSize (len - s.pending.length)) h.pos
  rw [Cursor.read]
  dsimp only
  by_cases hneed : Blocks.count part.eraseSize (len - s.pending.length) ≤
      (Picks.all (fun i => (med.block i).delivers) (blockCount part) s.next).length
  · rw [if_pos hneed, Option.map_eq_some_iff] at hblocks
    obtain ⟨⟨blocks, fd⟩, hread, hfound⟩ := hblocks
    obtain ⟨hend, hsame⟩ := readBlocks_behind _ h.pos hread
    rw [hread] at hcall
    obtain ⟨hdata, hpending⟩ := hcall
    rw [if_pos hneed, ← h.content, ← hfound]
    refine ⟨hdata, ?_, ?_, ?_⟩
    · rw [hpending.fd_eq]
      exact hpending
    · rw [hpending.fd_eq]
      exact hend
    · rw [hpending.fd_eq]
      exact hsame
  · rw [if_neg hneed, Option.map_eq_none_iff] at hblocks
    rw [hblocks] at hcall
    rw [if_neg hneed]
    exact hcall

/-- A call of `mtd_read_skip_to`. -/
theorem Follows.skipTo (h : Follows part c ctx s) {offset : Nat} (hoffset : part.eraseSize ∣ offset) :
    Follows part c (readSkipTo (med.readDriver part) offset ctx) (s.skipTo (offset / part.eraseSize)) where
  pending := ⟨rfl, h.pending.buffer_length, h.pending.consumed_le, h.pending.drop_eq⟩
  pos := (Nat.div_mul_cancel hoffset).symm
  content := h.content

/-- A length that an `int` holds, or the offset of a block in the partition. -/
def ReadCall.Valid (part : MtdPartition) : ReadCall → Prop
  | readData len => len < 2 ^ 31
  | skipTo offset => part.eraseSize ∣ offset ∧ offset ≤ part.size

theorem Follows.run {calls : List ReadCall} :
    ∀ {ctx : ReadContext Scan} {s : Cursor}, Follows part c ctx s → (∀ call ∈ calls, call.Valid part) →
      runReads (med.readDriver part) part calls ctx =
        s.run part (fun i => (med.block i).delivers) c calls := by
  induction calls with
  | nil => exact fun _ _ => rfl
  | cons call calls ih =>
    intro ctx s h hvalid
    obtain ⟨hcall, hcalls⟩ := List.forall_mem_cons.mp hvalid
    cases call with
    | readData len =>
      have hread := h.readData med hcall
      rw [runReads, Cursor.run]
      generalize Mtd.readData (med.readDriver part) part len ctx = r at hread
      obtain ⟨data, ctx'⟩ := r
      cases hs : s.read part (fun i => (med.block i).delivers) c len with
      | none =>
        rw [hs] at hread
        obtain rfl : data = none := hread
        rfl
      | some r =>
        rw [hs] at hread
        obtain ⟨rfl, hfollows⟩ : data = some r.1 ∧ Follows part c ctx' r.2 := hread
        exact congrArg (some r.1 :: ·) (ih hfollows hcalls)
    | skipTo offset => exact ih (h.skipTo hcall.1) hcalls

end

/-- In every sequence of calls on a fresh context, `mtd_read_data` and `mtd_read_skip_to` move a
cursor over the blocks of the medium that are delivered. -/
theorem runReads_cursor (med : Medium) (part : MtdPartition) (c : Content) (failed : Nat)
    (calls : List ReadCall) (hcalls : ∀ call ∈ calls, call.Valid part) :
    runReads (med.readDriver part) part calls (readPartition part ⟨c, failed⟩) =
      Cursor.run part (fun i => (med.block i).delivers) c calls ⟨[], 0⟩ :=
  (follows_readPartition part c failed).run hcalls

/-- The byte that was left over of block 0 comes before those of block 2. -/
theorem runReads_cursor_leftover :
    runReads ((Medium.withBad (· == 1) (fun _ => Block.healthy) (fun _ => 255)).readDriver
        ⟨8, 2, by decide, by decide⟩) ⟨8, 2, by decide, by decide⟩ [.readData 1, .skipTo 4, .readData 3]
        (readPartition ⟨8, 2, by decide, by decide⟩ ⟨fun j => UInt8.ofNat j, 0⟩) =
      [some [0], some [1, 4, 5]] :=
  (runReads_cursor (Medium.withBad (· == 1) (fun _ => Block.healthy) (fun _ => 255))
    ⟨8, 2, by decide, by decide⟩ (fun j => UInt8.ofNat j) 0 [.readData 1, .skipTo 4, .readData 3]
    (by simp [ReadCall.Valid])).trans (by decide)

end LinuxOta.Mtd
