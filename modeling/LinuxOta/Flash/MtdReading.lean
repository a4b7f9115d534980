-- SUMMARY: What `read_block` and `mtd_read_data` deliver from a flash medium.
import LinuxOta.Flash.MtdMedium

namespace LinuxOta.Mtd

/-! # Reading a medium -/

/-- The state of the medium behind a read context. -/
structure Scan where
  content : Content
  /-- The counter of failed corrections. -/
  failed : Nat

/-- The driver behind a read context, whose descriptor is opened for reading only. -/
def Medium.readDriver (med : Medium) (part : MtdPartition) : Driver Scan where
  tell s := (true, s)
  seek _ s := (true, s)
  getBadBlock pos s := ((med.block (pos / part.eraseSize)).badBlock, s)
  erase _ _ s := (false, s)
  write _ _ s := (.short 0, s)
  read pos _ s :=
    match (med.block (pos / part.eraseSize)).reading with
    | .clean => (.whole fun j => s.content (pos + j), s)
    | .eccFails more => (.whole fun j => s.content (pos + j), { s with failed := s.failed + more + 1 })
    | .short moved => (.short moved, s)
  eccGetStats s := (some s.failed, s)
  close s := (true, s)

variable (med : Medium) {part : MtdPartition} {n : Nat}

variable (part n) in
/-- The read of a block. -/
theorem readAt_medium (fd : Fd Scan) :
    let r := fd.readAt (med.readDriver part) (n * part.eraseSize) part.eraseSize
    match (med.block n).reading with
    | .clean => r.1 = some (fd.state.content.read (n * part.eraseSize) part.eraseSize) ∧ r.2.state = fd.state ∧
      r.2.pos = n * part.eraseSize + part.eraseSize
    | .eccFails more => r.1 ≠ none ∧ r.2.state = ⟨fd.state.content, fd.state.failed + more + 1⟩
    | .short _ => r.1 = none ∧ r.2.state = fd.state := by
  have hi := mul_div_eraseSize part n
  cases hreading : (med.block n).reading <;>
    simp [Fd.readAt, Fd.seek, Fd.read, Medium.readDriver, hi, hreading, Transfer.moves,
      Content.read]

variable (part) in
/-- The result `r` of reading the content `c` from block `n` on: the first block that is
delivered, or there is none. -/
def ReadsNext (n : Nat) (c : Content) (r : Option Bytes × Fd Scan) : Prop :=
  match Picks.first (fun i => (med.block i).delivers) (blockCount part) n with
  | some i => r.1 = some (c.read (i * part.eraseSize) part.eraseSize) ∧ r.2.pos = (i + 1) * part.eraseSize ∧
    r.2.state.content = c
  | none => r.1 = none

variable {med} {c : Content}

/-- Behind the last block nothing is read. -/
theorem ReadsNext.past {r : Option Bytes × Fd Scan} (hn : blockCount part ≤ n) (hr : r.1 = none) :
    ReadsNext med part n c r := by
  rw [ReadsNext, Picks.first_of_ge hn]
  exact hr

/-- A block that is not delivered is skipped. -/
theorem ReadsNext.skip {r : Option Bytes × Fd Scan} (hn : n < blockCount part)
    (hdelivers : (med.block n).delivers = false) (h : ReadsNext med part (n + 1) c r) :
    ReadsNext med part n c r := by
  rw [ReadsNext, Picks.first_of_neg (p := fun i => (med.block i).delivers) hn hdelivers]
  exact h

variable (med)

/-- A turn of `read_block` at block `n`: the block is delivered, or the loop goes on behind it, on
the same content. -/
theorem readBlockFrom_turn (fuel : Nat) (fd : Fd Scan) (hn : n < blockCount part) :
    let r := readBlockFrom (med.readDriver part) part (fuel + 1) (n * part.eraseSize) fd.state.failed fd
    if (med.block n).delivers then
      r.1 = some (fd.state.content.read (n * part.eraseSize) part.eraseSize) ∧
        r.2.pos = (n + 1) * part.eraseSize ∧ r.2.state.content = fd.state.content
    else
      ∃ fd' : Fd Scan, fd'.state.content = fd.state.content ∧
        r = readBlockFrom (med.readDriver part) part fuel ((n + 1) * part.eraseSize) fd'.state.failed fd' := by
  rw [readBlockFrom_succ, if_pos ((end_le_size_iff part n).mpr hn), Nat.succ_mul]
  have hread := readAt_medium med part n fd
  generalize fd.readAt (med.readDriver part) (n * part.eraseSize) part.eraseSize = r at hread
  obtain ⟨data, fd₁⟩ := r
  have hecc : fd₁.eccGetStats (med.readDriver part) = (some fd₁.state.failed, fd₁) := rfl
  cases hreading : (med.block n).reading with
  | short moved =>
    rw [hreading] at hread
    obtain ⟨hdata, hstate⟩ := hread
    obtain rfl : data = none := hdata
    have hstate₁ : fd₁.state = fd.state := hstate
    rw [if_neg (by simp [Block.delivers, hreading])]
    exact ⟨fd₁, congrArg Scan.content hstate₁, by rw [hstate₁]⟩
  | eccFails more =>
    rw [hreading] at hread
    obtain ⟨hdata, hstate⟩ := hread
    obtain ⟨data, rfl⟩ := Option.ne_none_iff_exists'.mp hdata
    have hstate₁ : fd₁.state = ⟨fd.state.content, fd.state.failed + more + 1⟩ := hstate
    have hgrown : fd₁.state.failed ≠ fd.state.failed := by
      rw [hstate₁]
      exact Nat.ne_of_gt (Nat.lt_succ_of_le (Nat.le_add_right _ _))
    dsimp only
    rw [if_neg (by simp [Block.delivers, hreading]), hecc]
    exact ⟨fd₁, by rw [hstate₁], if_pos hgrown⟩
  | clean =>
    rw [hreading] at hread
    obtain ⟨hdata, hstate, hpos⟩ := hread
    obtain rfl : data = some (fd.state.content.read (n * part.eraseSize) part.eraseSize) := hdata
    have hstate₁ : fd₁.state = fd.state := hstate
    have hsame : ¬ fd₁.state.failed ≠ fd.state.failed := not_not_intro (congrArg Scan.failed hstate₁)
    have hquery : fd₁.getBadBlock (med.readDriver part) (n * part.eraseSize) =
        ((med.block n).badBlock, fd₁.log (.getBadBlock (n * part.eraseSize) (med.block n).badBlock)) := by
      simp [Fd.getBadBlock, Medium.readDriver, mul_div_eraseSize]
    dsimp only
    rw [hecc]
    dsimp only
    rw [if_neg hsame, hquery]
    dsimp only
    by_cases hgood : (med.block n).badBlock = .good
    · rw [if_pos (by simp [Block.delivers, hreading, hgood]), if_neg (not_not_intro hgood)]
      exact ⟨rfl, hpos, congrArg Scan.content hstate₁⟩
    · rw [if_neg (by simp [Block.delivers, hgood]), if_pos hgood]
      refine ⟨fd₁.log (.getBadBlock (n * part.eraseSize) (med.block n).badBlock), ?_, ?_⟩
      · rw [Fd.log_state, hstate₁]
      · rw [Fd.log_state, hstate₁]

/-- The loop of `read_block`. -/
theorem readBlockFrom_medium (fuel : Nat) :
    ∀ (n : Nat) (fd : Fd Scan), blockCount part - n ≤ fuel →
      ReadsNext med part n fd.state.content
        (readBlockFrom (med.readDriver part) part fuel (n * part.eraseSize) fd.state.failed fd) := by
  induction fuel with
  | zero => exact fun n fd hfuel => .past (by omega) rfl
  | succ fuel ih =>
    intro n fd hfuel
    by_cases hn : n < blockCount part
    · have hturn := readBlockFrom_turn med fuel fd hn
      cases hdelivers : (med.block n).delivers with
      | true =>
        rw [hdelivers] at hturn
        rw [ReadsNext, Picks.first_of_pos (p := fun i => (med.block i).delivers) hn hdelivers]
        exact hturn
      | false =>
        rw [hdelivers] at hturn
        obtain ⟨fd', hcontent, hgoes⟩ := hturn
        rw [hgoes]
        have hrest := ih (n + 1) fd' (by omega)
        rw [hcontent] at hrest
        exact .skip hn hdelivers hrest
    · rw [readBlockFrom_succ, if_neg fun hend => hn ((end_le_size_iff part n).mp hend)]
      exact .past (Nat.not_lt.mp hn) rfl

theorem readBlock_medium {fd : Fd Scan} (hpos : fd.pos = n * part.eraseSize) :
    ReadsNext med part n fd.state.content (readBlock (med.readDriver part) part fd) := by
  have hfuel : blockCount part - n ≤ part.size := (Nat.sub_le _ _).trans (blockCount_le part)
  have hcall := readBlockFrom_medium med part.size n fd hfuel
  rw [← hpos] at hcall
  exact hcall

/-- The next blocks that are delivered, if there are enough. -/
theorem readBlocks_medium (k : Nat) :
    ∀ {n : Nat} {fd : Fd Scan}, fd.pos = n * part.eraseSize →
      (readBlocks (med.readDriver part) part k fd).map Prod.fst =
        if k ≤ (Picks.all (fun i => (med.block i).delivers) (blockCount part) n).length then
          some (((Picks.all (fun i => (med.block i).delivers) (blockCount part) n).take k).map fun i =>
            fd.state.content.read (i * part.eraseSize) part.eraseSize)
        else none := by
  induction k with
  | zero =>
    intro n fd hpos
    simp [readBlocks]
  | succ k ih =>
    intro n fd hpos
    have hblock := readBlock_medium med hpos
    rw [ReadsNext] at hblock
    rw [Picks.all_eq]
    cases hfirst : Picks.first (fun i => (med.block i).delivers) (blockCount part) n with
    | none =>
      rw [hfirst] at hblock
      rw [readBlocks_succ_of_fails _ _ hblock]
      simp
    | some i =>
      rw [hfirst] at hblock
      obtain ⟨hdata, hpos', hcontent⟩ := hblock
      have hrest := ih hpos'
      rw [hcontent] at hrest
      rw [readBlocks_succ _ _ hdata]
      generalize readBlocks (med.readDriver part) part k (readBlock (med.readDriver part) part fd).2 = r at hrest
      by_cases hk : k ≤ (Picks.all (fun i => (med.block i).delivers) (blockCount part) (i + 1)).length
      · rw [if_pos hk, Option.map_eq_some_iff] at hrest
        obtain ⟨⟨blocks, fd'⟩, rfl, hblocks⟩ := hrest
        dsimp only at hblocks
        simp [hk, hblocks]
      · rw [if_neg hk, Option.map_eq_none_iff] at hrest
        simp [hk, hrest]

/-- The blocks that are delivered, in increasing address order. -/
def deliverers (part : MtdPartition) (block : Nat → Block) : List Nat :=
  Picks.all (fun i => (block i).delivers) (blockCount part) 0

/-- What calls on a fresh context read. -/
theorem readCalls_medium (med : Medium) (part : MtdPartition) (c : Content) (failed : Nat)
    {lens : List Nat} (hlens : ∀ len ∈ lens, len < 2 ^ 31) :
    let k := Blocks.count part.eraseSize lens.sum
    let r := readCalls (med.readDriver part) part lens (readPartition part ⟨c, failed⟩)
    if k ≤ (deliverers part med.block).length then
      ∃ pieces : List Bytes, r.1 = pieces.map some ∧ pieces.map List.length = lens ∧
        pieces.flatten = ((((deliverers part med.block).take k).map fun i =>
          c.read (i * part.eraseSize) part.eraseSize).flatten).take lens.sum
    else none ∈ r.1 := by
  have hpending : Pending part (readPartition part (⟨c, failed⟩ : Scan)) ⟨0, ⟨c, failed⟩, []⟩ [] :=
    pending_readPartition _
  have hcalls := readCalls_reads (med.readDriver part) lens hlens hpending
  have hpos : (⟨0, ⟨c, failed⟩, []⟩ : Fd Scan).pos = 0 * part.eraseSize := (Nat.zero_mul _).symm
  have hblocks := readBlocks_medium med (Blocks.count part.eraseSize lens.sum) hpos
  rw [List.length_nil, Nat.sub_zero] at hcalls
  generalize readBlocks (med.readDriver part) part (Blocks.count part.eraseSize lens.sum) ⟨0, ⟨c, failed⟩, []⟩ = r
    at hcalls hblocks
  dsimp only
  by_cases hk : Blocks.count part.eraseSize lens.sum ≤ (deliverers part med.block).length
  · rw [if_pos hk]
    rw [← deliverers, if_pos hk, Option.map_eq_some_iff] at hblocks
    obtain ⟨⟨blocks, fd⟩, rfl, hblocks⟩ := hblocks
    dsimp only at hblocks hcalls
    rw [hblocks] at hcalls
    exact hcalls
  · rw [if_neg hk]
    rw [← deliverers, if_neg hk, Option.map_eq_none_iff] at hblocks
    rw [hblocks] at hcalls
    exact hcalls

/-- What one call on a fresh context reads. -/
theorem readData_medium (med : Medium) (part : MtdPartition) (c : Content) (failed : Nat)
    {len : Nat} (hlen : len < 2 ^ 31) :
    let k := Blocks.count part.eraseSize len
    (readData (med.readDriver part) part len (readPartition part ⟨c, failed⟩)).1 =
      if k ≤ (deliverers part med.block).length then
        some (((((deliverers part med.block).take k).map fun i =>
          c.read (i * part.eraseSize) part.eraseSize).flatten).take len)
      else none := by
  have hcalls := readCalls_medium med part c failed (List.forall_mem_singleton.mpr hlen)
  have hone : (readCalls (med.readDriver part) part [len] (readPartition part ⟨c, failed⟩)).1 =
      [(readData (med.readDriver part) part len (readPartition part ⟨c, failed⟩)).1] := rfl
  dsimp only at hcalls ⊢
  rw [List.sum_singleton, hone] at hcalls
  by_cases hk : Blocks.count part.eraseSize len ≤ (deliverers part med.block).length
  · rw [if_pos hk] at hcalls ⊢
    obtain ⟨pieces, hresults, hlengths, hflatten⟩ := hcalls
    obtain ⟨piece, rfl⟩ : ∃ piece, pieces = [piece] := by
      rw [← List.length_eq_one_iff, ← List.length_map (f := List.length), hlengths,
        List.length_singleton]
    rw [List.map_singleton, List.singleton_inj] at hresults
    rw [hresults, ← hflatten, List.flatten_singleton]
  · rw [if_neg hk, List.mem_singleton] at hcalls
    rw [if_neg hk]
    exact hcalls.symm

end LinuxOta.Mtd
