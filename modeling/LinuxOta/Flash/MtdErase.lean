-- SUMMARY: `mtd_erase_blocks` behind a string that was written: what it erases, where it ends, and what is read afterwards.
import LinuxOta.Flash.MtdLaw

namespace LinuxOta.Mtd

/-! # mtd_erase_blocks on a medium -/

section
variable {med : Medium} {part : MtdPartition} {n m : Nat} {c : Content}

variable (med part) in
/-- The content `c` after the blocks from `n` to `m` were erased, but for those that answer that
they are bad. -/
def erasedFrom (n m : Nat) (c : Content) : Content := fun j =>
  if n ≤ j / part.eraseSize ∧ j / part.eraseSize < m ∧ (med.block (j / part.eraseSize)).badBlock ≠ .bad
  then med.left j else c j

theorem erasedFrom_self (n : Nat) (c : Content) : erasedFrom med part n n c = c := by
  funext j
  exact if_neg fun h => by omega

theorem erasedFrom_of_not_mem {j : Nat} (h : j / part.eraseSize < n ∨ m ≤ j / part.eraseSize) :
    erasedFrom med part n m c j = c j :=
  if_neg fun hin => by omega

/-- The first of the blocks is bad. -/
theorem erasedFrom_of_bad (hbad : (med.block n).badBlock = .bad) (m : Nat) (c : Content) :
    erasedFrom med part (n + 1) m c = erasedFrom med part n m c := by
  funext j
  refine if_congr ⟨fun h => ⟨by omega, h.2⟩, fun h => ⟨?_, h.2⟩⟩ rfl rfl
  have hne : j / part.eraseSize ≠ n := by
    intro heq
    rw [heq] at h
    exact h.2.2 hbad
  omega

/-- The first of the blocks is erased. -/
theorem erasedFrom_overwrite (hn : n < m) (hbad : (med.block n).badBlock ≠ .bad) (c : Content) :
    erasedFrom med part (n + 1) m
        (c.overwrite (n * part.eraseSize) (med.left.read (n * part.eraseSize) part.eraseSize)) =
      erasedFrom med part n m c := by
  funext j
  simp only [erasedFrom, Content.overwrite_read, ← div_eraseSize_eq_iff]
  by_cases hself : j / part.eraseSize = n
  · rw [if_pos hself, hself, ite_self, if_pos ⟨Nat.le_refl n, hn, hbad⟩]
  · rw [if_neg hself]
    exact if_congr ⟨fun h => ⟨by omega, h.2⟩, fun h => ⟨by omega, h.2⟩⟩ rfl rfl

variable (med part) in
/-- The loop of `mtd_erase_blocks`, which does not move the descriptor. -/
theorem eraseBlocksFrom_medium (blocks : Nat) :
    ∀ (n : Nat) (fd : Fd Wear),
      let r := eraseBlocksFrom (med.writeDriver part) part blocks (n * part.eraseSize) fd
      r.1 = (n + blocks) * part.eraseSize ∧ r.2.pos = fd.pos ∧
        r.2.state.content = erasedFrom med part n (n + blocks) fd.state.content := by
  induction blocks with
  | zero =>
    intro n fd
    exact ⟨rfl, rfl, (erasedFrom_self n _).symm⟩
  | succ blocks ih =>
    intro n fd
    have hi := mul_div_eraseSize part n
    have hnext : n + (blocks + 1) = n + 1 + blocks := by omega
    have hanswer : (fd.getBadBlock (med.writeDriver part) (n * part.eraseSize)).1 =
        (med.block n).badBlock := by
      simp [Fd.getBadBlock, Medium.writeDriver, hi]
    rw [eraseBlocksFrom, ← Nat.succ_mul, hnext]
    dsimp only
    rw [hanswer]
    by_cases hbad : (med.block n).badBlock = .bad
    · rw [if_pos hbad]
      obtain ⟨hret, hpos, hcontent⟩ := ih (n + 1) (fd.getBadBlock (med.writeDriver part) (n * part.eraseSize)).2
      exact ⟨hret, hpos, hcontent.trans (erasedFrom_of_bad hbad _ _)⟩
    · rw [if_neg hbad]
      obtain ⟨hret, hpos, hcontent⟩ := ih (n + 1)
        ((fd.getBadBlock (med.writeDriver part) (n * part.eraseSize)).2.erase (med.writeDriver part)
          (n * part.eraseSize) part.eraseSize).2
      exact ⟨hret, hpos, hcontent.trans (erasedFrom_overwrite (by omega) hbad _)⟩

/-- The block behind those that `mtd_erase_blocks` erases from block `n` on: all of them for a
negative count, none for one that is too large. -/
def eraseEnd (part : MtdPartition) (n : Nat) (blocks : Int) : Nat :=
  if blocks < 0 then part.size / part.eraseSize
  else if blocks ≤ (part.size / part.eraseSize - n : Nat) then n + blocks.toNat else n

/-- `mtd_erase_blocks` where the pending data go through, and end before block `n`. -/
theorem eraseBlocks_medium (hcount : part.size / part.eraseSize < 2 ^ 31) {ctx : WriteContext Wear}
    {w : BlockWriter Wear}
    (hflush : flushPendingBy part (writeBlock (med.writeDriver part) part) ctx = (0, ⟨w, []⟩))
    (hpos : w.fd.pos = n * part.eraseSize) (hn : n ≤ part.size / part.eraseSize) (blocks : Int) :
    let s := eraseBlocks (med.writeDriver part) part blocks ctx
    s.1 = (if ((part.size / part.eraseSize - n : Nat) : Int) < blocks then (-1 : Int)
        else (eraseEnd part n blocks * part.eraseSize : Nat)) ∧
      s.2.writer.fd.pos = n * part.eraseSize ∧ s.2.buffer = [] ∧
      s.2.writer.fd.state.content = erasedFrom med part n (eraseEnd part n blocks) w.fd.state.content := by
  have hend : n * part.eraseSize ≤ part.size := (Nat.le_div_iff_mul_le part.eraseSize_pos).mp hn
  have hsize := part.size_lt
  have hrest : ((((part.size : Int) - (n * part.eraseSize : Nat)) % 2 ^ 32).toNat) = part.size - n * part.eraseSize := by
    omega
  have htotal : (part.size - n * part.eraseSize) / part.eraseSize = part.size / part.eraseSize - n := by
    rw [Nat.mul_comm, Nat.sub_mul_div]
  have hsmall : part.size / part.eraseSize - n < 2 ^ 31 := by omega
  have htell : w.fd.tell (med.writeDriver part) = (true, w.fd) := rfl
  rw [eraseBlocks, eraseBlocksBy, hflush]
  dsimp only
  rw [if_neg (not_not_intro rfl), htell]
  dsimp only
  rw [hpos, hrest, htotal, asInt32_of_lt hsmall, if_neg (by decide), eraseEnd]
  obtain ⟨total, htotal⟩ : ∃ total, total = part.size / part.eraseSize - n := ⟨_, rfl⟩
  have hall : part.size / part.eraseSize = n + total := by omega
  rw [← htotal, hall]
  have hloop := fun k => eraseBlocksFrom_medium med part k n w.fd
  rcases Int.lt_or_le blocks 0 with hneg | hnonneg
  · rw [if_pos hneg, if_neg (Int.lt_irrefl _), if_pos hneg, if_neg (by omega), Int.toNat_natCast]
    obtain ⟨hret, hpos', hcontent⟩ := hloop total
    exact ⟨congrArg Nat.cast hret, hpos'.trans hpos, rfl, hcontent⟩
  rw [if_neg (Int.not_lt.mpr hnonneg), if_neg (Int.not_lt.mpr hnonneg)]
  rcases Int.lt_or_le total blocks with hmore | hle
  · rw [if_pos hmore, if_pos hmore, if_neg (Int.not_le.mpr hmore), erasedFrom_self]
    exact ⟨rfl, hpos, rfl, rfl⟩
  · rw [if_neg (Int.not_lt.mpr hle), if_neg (Int.not_lt.mpr hle), if_pos hle]
    obtain ⟨hret, hpos', hcontent⟩ := hloop blocks.toNat
    exact ⟨congrArg Nat.cast hret, hpos'.trans hpos, rfl, hcontent⟩

/-! ## Behind a string -/

/-- Where the blocks `bs` end, and that nothing is changed behind them. -/
theorem writeBlocks_behind {bs : List Bytes} :
    ∀ {n : Nat} {c : Content} {w w' : BlockWriter Wear} {ps : List Nat},
      (∀ b ∈ bs, b.length = part.eraseSize) → Before med part n c w.fd → w.fd.pos = n * part.eraseSize →
      Picks.picks (fun b i => (med.block i).takes b) (blockCount part) n bs = some ps →
      writeBlocks (writeBlock (med.writeDriver part) part) bs w = some w' →
      w'.fd.pos = Picks.behind n ps * part.eraseSize ∧
        ∀ j, Picks.behind n ps ≤ j / part.eraseSize → w'.fd.state.content j = c j := by
  induction bs with
  | nil =>
    intro n c w w' ps _ h hpos hpicks hw
    obtain rfl : [] = ps := Option.some.inj hpicks
    obtain rfl : w = w' := Option.some.inj hw
    exact ⟨hpos, fun j _ => congrFun h.content j⟩
  | cons b bs ih =>
    intro n c w w' ps hbs h hpos hpicks hw
    have hb := hbs b List.mem_cons_self
    rw [Picks.picks, Option.bind_eq_some_iff] at hpicks
    obtain ⟨i, hfirst, hrest⟩ := hpicks
    obtain ⟨ps, hpicks, rfl⟩ := Option.map_eq_some_iff.mp hrest
    obtain ⟨hni, hi, -⟩ := Picks.first_spec hfirst
    have hwrite := writeBlock_medium hb h (hni.trans (Nat.le_of_lt hi)) hpos
    rw [WritesNext, hfirst] at hwrite
    obtain ⟨hret, hpos', hbefore⟩ := hwrite
    rw [writeBlocks_cons hret] at hw
    obtain ⟨hend, hframe⟩ := ih (fun b' hb' => hbs b' (List.mem_cons_of_mem _ hb')) hbefore hpos' hpicks hw
    refine ⟨hend, fun j hj => ?_⟩
    have hge := (Picks.behind_picks hpicks hi).1.trans hj
    rw [hframe j hj, overwrite_passed hb (by omega), passed, if_neg (by omega)]

/-- Erasing behind a string that was written through a fresh context. -/
theorem write_erase_medium (med : Medium) (hcount : part.size / part.eraseSize < 2 ^ 31)
    (calls : List Bytes) (c : Content) (blocks : Int) :
    let bs := Blocks.padded part.eraseSize 0 calls.flatten
    let r := writeCalls (med.writeDriver part) part calls (writePartition ⟨c, fun _ => 0⟩)
    let s := eraseBlocks (med.writeDriver part) part blocks r.2
    match takers part med.block bs with
    | some ps => r.1 = calls.map (fun data => (data.length : Int)) ∧
      s.1 = (if ((part.size / part.eraseSize - Picks.behind 0 ps : Nat) : Int) < blocks then (-1 : Int)
        else (eraseEnd part (Picks.behind 0 ps) blocks * part.eraseSize : Nat)) ∧
      s.2.writer.fd.pos ≤ part.size ∧ s.2.buffer = [] ∧ ∃ c', Stored med part ps bs c c' ∧ (∀ j, Picks.behind 0 ps ≤ j / part.eraseSize → c' j = c j) ∧
        s.2.writer.fd.state.content =
          erasedFrom med part (Picks.behind 0 ps) (eraseEnd part (Picks.behind 0 ps) blocks) c'
    | none => -1 ∈ r.1 ∨ s.1 = -1 := by
  have hbs := fun b (hb : b ∈ Blocks.padded part.eraseSize 0 calls.flatten) =>
    Blocks.length_of_mem_padded part.eraseSize_pos hb
  have hfresh : Before med part 0 c (writePartition (⟨c, fun _ => 0⟩ : Wear)).writer.fd :=
    ⟨rfl, fun _ _ => rfl, fun e he => by simp [writePartition] at he⟩
  have hblocks := writeBlocks_fresh med part hbs c
  have hopened : writePartition (⟨c, fun _ => 0⟩ : Wear) = ⟨(writePartition (⟨c, fun _ => 0⟩ : Wear)).writer, []⟩ := rfl
  have hcalls := writeCallsBy_flushPendingBy part (writeBlock (med.writeDriver part) part) calls
    (writePartition (⟨c, fun _ => 0⟩ : Wear)).writer
  rw [← hopened] at hcalls
  dsimp only at hcalls ⊢
  rw [writeCalls]
  generalize writeCallsBy part (writeBlock (med.writeDriver part) part) calls (writePartition ⟨c, fun _ => 0⟩) = r at hcalls
  cases htakers : takers part med.block (Blocks.padded part.eraseSize 0 calls.flatten) with
  | none =>
    rw [htakers] at hblocks
    rw [hblocks] at hcalls
    refine hcalls.imp_right fun hflush => ?_
    rw [eraseBlocks, eraseBlocksBy]
    generalize flushPendingBy part (writeBlock (med.writeDriver part) part) r.2 = f at hflush
    obtain ⟨ret, ctx⟩ := f
    obtain rfl : ret = -1 := hflush
    rfl
  | some ps =>
    rw [htakers] at hblocks
    obtain ⟨w, hw, -, hstored, -⟩ := hblocks
    rw [hw] at hcalls
    obtain ⟨hrets, hflush⟩ := hcalls
    obtain ⟨hpos, hframe⟩ := writeBlocks_behind (n := 0) hbs hfresh (Nat.zero_mul _).symm htakers hw
    have hle : blockCount part ≤ part.size / part.eraseSize := by
      have hsize := asInt32_le part.size
      exact Nat.div_le_div_right (by omega)
    have hn := (Picks.behind_picks htakers (Nat.zero_le _)).2.trans hle
    obtain ⟨hret, hpos', hbuffer, hcontent⟩ := eraseBlocks_medium hcount hflush hpos hn blocks
    have hend : (eraseBlocks (med.writeDriver part) part blocks r.2).2.writer.fd.pos ≤ part.size := by
      rw [hpos']
      exact (Nat.le_div_iff_mul_le part.eraseSize_pos).mp hn
    exact ⟨hrets, hret, hend, hbuffer, w.fd.state.content, hstored, hframe, hcontent⟩

end

/-! ## Media with bad blocks -/

section
variable {part : MtdPartition} {bad : Nat → Bool} {worn : Nat → Block} {left : Content}

/-- What the good blocks hold after the blocks `bs` were written on the content `c`, and what is
behind them was erased before block `m`. -/
def rewritten (part : MtdPartition) (bad : Nat → Bool) (left c : Content) (bs : List Bytes) (m : Nat) :
    List Bytes :=
  bs ++ ((goodBlocks part bad).drop bs.length).map fun i =>
    (if i < m then left else c).read (i * part.eraseSize) part.eraseSize

theorem goodBlocks_pairwise (part : MtdPartition) (bad : Nat → Bool) :
    (goodBlocks part bad).Pairwise (· < ·) :=
  List.Pairwise.filter _ List.pairwise_lt_range

/-- The good blocks that are not picked lie behind those that are. -/
theorem behind_le_of_mem_drop {k g : Nat} (hg : g ∈ (goodBlocks part bad).drop k) :
    Picks.behind 0 ((goodBlocks part bad).take k) ≤ g := by
  have hsorted := goodBlocks_pairwise part bad
  rw [← List.take_append_drop k (goodBlocks part bad), List.pairwise_append] at hsorted
  exact (Picks.behind_le_iff hsorted.1).mpr ⟨fun _ => Nat.zero_le g, fun i hi => hsorted.2.2 i hi g hg⟩

/-- What is read from the good blocks afterwards. -/
theorem erased_reads {bs : List Bytes} {c c' : Content} {m : Nat}
    (hstored : Stored (Medium.withBad bad worn left) part ((goodBlocks part bad).take bs.length) bs c c')
    (hframe : ∀ j, Picks.behind 0 ((goodBlocks part bad).take bs.length) ≤ j / part.eraseSize → c' j = c j) :
    (goodBlocks part bad).map (fun i =>
        (erasedFrom (Medium.withBad bad worn left) part
          (Picks.behind 0 ((goodBlocks part bad).take bs.length)) m c').read (i * part.eraseSize) part.eraseSize) =
      rewritten part bad left c bs m := by
  have hsorted := (goodBlocks_pairwise part bad).sublist (List.take_sublist bs.length _)
  obtain ⟨n, hn⟩ : ∃ n, n = Picks.behind 0 ((goodBlocks part bad).take bs.length) := ⟨_, rfl⟩
  rw [← hn] at hframe ⊢
  conv_lhs => rw [← List.take_append_drop bs.length (goodBlocks part bad)]
  rw [List.map_append, rewritten]
  congr 1
  · refine Eq.trans ?_ hstored.holds
    refine List.map_congr_left fun i hi => read_congr fun j hj => erasedFrom_of_not_mem (.inl ?_)
    rw [hj, hn]
    exact Picks.lt_behind hsorted hi
  · refine List.map_congr_left fun i hi => read_congr fun j hj => ?_
    have hge := behind_le_of_mem_drop hi
    have hgood : (Medium.withBad bad worn left).block i = Block.healthy := by
      have hmem := (List.mem_filter.mp (List.mem_of_mem_drop hi)).2
      simp [Medium.withBad, show bad i = false by simpa using hmem]
    rw [← hn, ← hj] at hge
    rw [erasedFrom, hframe j hge, hj, hgood]
    by_cases hm : i < m
    · rw [if_pos hm, if_pos ⟨hj ▸ hge, hm, by decide⟩]
      rfl
    · rw [if_neg hm, if_neg fun h => hm h.2.1]

/-- Bad blocks are neither written nor erased. -/
theorem erased_unchanged {ps : List Nat} {bs : List Bytes} {c c' : Content} {n m : Nat}
    (hstored : Stored (Medium.withBad bad worn left) part ps bs c c') (hps : ∀ i ∈ ps, bad i = false)
    {j : Nat} (hbad : bad (j / part.eraseSize) = true) :
    erasedFrom (Medium.withBad bad worn left) part n m c' j = c j := by
  have hspared : erasedFrom (Medium.withBad bad worn left) part n m c' j = c' j :=
    if_neg fun h => h.2.2 (by simp [Medium.withBad, hbad])
  rw [hspared]
  rcases hstored.others j fun hmem => by simp [hps _ hmem] at hbad with hsame | htried
  · exact hsame
  · rw [withBad_tried, hbad] at htried
    exact absurd htried.1 (by decide)

end

/-- A string that fits into the good blocks is written, and `mtd_erase_blocks` erases the good ones
among the next `blocks` blocks, or among all that are left. Afterwards the good blocks read as the
string, padded to whole blocks, then what was erased, then what was there before. -/
theorem write_erase_read_law (part : MtdPartition) (hsize : part.size < 2 ^ 31) (bad : Nat → Bool)
    (worn : Nat → Block) (left c : Content) (failed : Nat) (calls : List Bytes) (blocks : Int)
    (hfits : Blocks.count part.eraseSize calls.flatten.length ≤ (goodBlocks part bad).length) :
    let med := Medium.withBad bad worn left
    let bs := Blocks.padded part.eraseSize 0 calls.flatten
    let n := Picks.behind 0 ((goodBlocks part bad).take bs.length)
    let r := writeCalls (med.writeDriver part) part calls (writePartition ⟨c, fun _ => 0⟩)
    let s := eraseBlocks (med.writeDriver part) part blocks r.2
    let t := writeClose (med.writeDriver part) part s.2
    let c' := t.2.writer.fd.state.content
    r.1 = calls.map (fun data => (data.length : Int)) ∧
      s.1 = (if ((part.size / part.eraseSize - n : Nat) : Int) < blocks then (-1 : Int)
        else (eraseEnd part n blocks * part.eraseSize : Nat)) ∧
      t.1 = 0 ∧
      (∀ lens : List Nat, lens.sum = (goodBlocks part bad).length * part.eraseSize →
        ReadsBack (rewritten part bad left c bs (eraseEnd part n blocks)).flatten lens
          (readCalls (med.readDriver part) part lens (readPartition part ⟨c', failed⟩)).1) ∧
      ∀ j, bad (j / part.eraseSize) = true → c' j = c j := by
  have hpos := part.eraseSize_pos
  have hcount : part.size / part.eraseSize < 2 ^ 31 := Nat.lt_of_le_of_lt (Nat.div_le_self _ _) hsize
  have hlaw := write_erase_medium (Medium.withBad bad worn left) hcount calls c blocks
  dsimp only at hlaw
  rw [withBad_takers hsize, Blocks.padded_length hpos, if_pos hfits, ← Blocks.padded_length hpos 0] at hlaw
  obtain ⟨hrets, hret, hend, hbuffer, c₁, hstored, hframe, hcontent⟩ := hlaw
  intro med bs n r s t c'
  obtain ⟨hfd, -, hclosed⟩ := writeCloseBy_flushed med part (writeBlock (med.writeDriver part) part) s.2
  have hflush : flushPendingBy part (writeBlock (med.writeDriver part) part) s.2 = (0, s.2) :=
    if_neg (by simp [Chunks.Context.stored, show s.2.buffer = [] from hbuffer])
  rw [hflush] at hfd hclosed
  have hc' : c' = erasedFrom med part n (eraseEnd part n blocks) c₁ := by
    rw [← hcontent]
    exact congrArg (fun fd => fd.state.content) hfd
  refine ⟨hrets, hret, hclosed rfl (blocksBehind_lt hend hsize), fun lens hlens => ?_, fun j hbad => ?_⟩
  · have hcap := goodBlocks_length_le part bad
    have hsmall : ∀ len ∈ lens, len < 2 ^ 31 := fun len hlen => by
      have hle := List.le_sum_of_mem hlen
      omega
    have hread := readCalls_medium med part c' failed hsmall
    have hwhole : Blocks.count part.eraseSize lens.sum = (goodBlocks part bad).length := by
      rw [hlens, Blocks.count_eq hpos, Nat.mul_mod_left, if_pos rfl, Nat.mul_div_cancel _ hpos, Nat.add_zero]
    have hblocks : (goodBlocks part bad).map (fun i => c'.read (i * part.eraseSize) part.eraseSize) =
        rewritten part bad left c bs (eraseEnd part n blocks) := by
      rw [hc']
      exact erased_reads hstored hframe
    have hall : (rewritten part bad left c bs (eraseEnd part n blocks)).flatten.length = lens.sum := by
      rw [← hblocks, hlens, List.length_flatten, List.map_map]
      simp [Function.comp_def]
    dsimp only at hread
    rw [withBad_deliverers hsize, hwhole, if_pos (Nat.le_refl _), List.take_length, hblocks, ← hall,
      List.take_length] at hread
    exact hread
  · rw [hc']
    refine erased_unchanged hstored (fun i hi => ?_) hbad
    simpa using (List.mem_filter.mp (List.mem_of_mem_take hi)).2

/-- Three bytes over a bad block, and the rest of the partition is erased. -/
theorem write_erase_read_law_three_bytes :
    (eraseBlocks ((Medium.withBad (· == 1) (fun _ => Block.healthy) (fun _ => 255)).writeDriver
      ⟨10, 2, by decide, by decide⟩) ⟨10, 2, by decide, by decide⟩ (-1)
      (writeCalls ((Medium.withBad (· == 1) (fun _ => Block.healthy) (fun _ => 255)).writeDriver
        ⟨10, 2, by decide, by decide⟩) ⟨10, 2, by decide, by decide⟩ [[1], [2, 3]]
        (writePartition ⟨fun _ => 0, fun _ => 0⟩)).2).1 = 10 :=
  (write_erase_read_law ⟨10, 2, by decide, by decide⟩ (by decide) (· == 1) (fun _ => Block.healthy)
    (fun _ => 255) (fun _ => 0) 0 [[1], [2, 3]] (-1) (by decide)).2.1.trans (by decide)

end LinuxOta.Mtd
