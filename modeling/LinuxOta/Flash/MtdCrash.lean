-- SUMMARY: Power that fails while a string is written to a medium: every content that may be found afterwards.
import LinuxOta.Base.Crash
import LinuxOta.Flash.MtdErase

namespace LinuxOta.Mtd

/-! # Power failures

The power may fail between two calls of the driver, or while a block is erased or
programmed. The other calls change nothing. -/

/-- What a call that succeeds does to the content. -/
def Event.effect (left : Content) : Event → Content → Content
  | .erase start length, c => c.overwrite start (left.read start length)
  | .write pos data, c => c.overwrite pos data
  | _, c => c

/-- The power fails during the call: what it touches may be anything. -/
def Event.Torn (e : Event) (c c' : Content) : Prop :=
  ∀ j, (∀ pos length, e.touches = some (pos, length) → ¬ (pos ≤ j ∧ j < pos + length)) → c' j = c j

theorem Event.torn_refl (e : Event) (c : Content) : e.Torn c c := fun _ _ => rfl

theorem Event.eq_of_torn {e : Event} (h : e.touches = none) {c c' : Content} (htorn : e.Torn c c') : c' = c := by
  funext j
  refine htorn j fun pos length ht => ?_
  rw [h] at ht
  exact absurd ht (by simp)

theorem Event.effect_of_idle {left : Content} {e : Event} (h : e.touches = none) (c : Content) :
    e.effect left c = c := by
  cases e with
  | erase => simp [Event.touches] at h
  | write => simp [Event.touches] at h
  | getBadBlock => rfl
  | read => rfl
  | wroteBlock => rfl

section
variable {part : MtdPartition} {bad : Nat → Bool} {worn : Nat → Block} {left : Content} {n : Nat}
  {data : Bytes}

variable (part left n) in
theorem after_blockEvents (hdata : data.length = part.eraseSize) (c : Content) :
    Crash.after (Event.effect left) (blockEvents part data n) c = c.overwrite (n * part.eraseSize) data :=
  Content.overwrite_overwrite (by rw [Content.read_length, hdata])

variable (worn left) in
/-- The next block from `n` on that is not bad is `i`: `write_block` asks about those before it
and writes it. -/
theorem writeBlockFrom_trace (hdata : data.length = part.eraseSize) (fuel : Nat) :
    ∀ {n i : Nat} (w : BlockWriter Wear), blockCount part - n ≤ fuel →
      Picks.first (fun i => !bad i) (blockCount part) n = some i →
      let r := writeBlockFrom ((Medium.withBad bad worn left).writeDriver part) part data fuel
        (n * part.eraseSize) w
      r.1 = 0 ∧ r.2.fd.pos = (i + 1) * part.eraseSize ∧
        r.2.fd.state.content = w.fd.state.content.overwrite (i * part.eraseSize) data ∧
        ∃ queries : List Event, (∀ e ∈ queries, e.touches = none) ∧
          r.2.fd.journal = w.fd.journal ++ (queries ++ blockEvents part data i) := by
  induction fuel with
  | zero =>
    intro n i w hfuel hfirst
    rw [Picks.first_of_ge (by omega)] at hfirst
    exact absurd hfirst (by simp)
  | succ fuel ih =>
    intro n i w hfuel hfirst
    have hlt : n < blockCount part := by
      obtain ⟨hge, hlt, -⟩ := Picks.first_spec hfirst
      omega
    have hi := mul_div_eraseSize part n
    cases hbad : bad n with
    | true =>
      rw [writeBlockFrom_succ, if_pos ((end_le_size_iff part n).mpr hlt), ← Nat.succ_mul]
      have hanswer : (w.fd.getBadBlock ((Medium.withBad bad worn left).writeDriver part) (n * part.eraseSize)).1 =
          .bad := by
        simp [Fd.getBadBlock, Medium.writeDriver, hi, Medium.withBad, hbad]
      rw [Picks.first_of_neg hlt (by simp [hbad])] at hfirst
      dsimp only
      rw [hanswer, if_pos ⟨by decide, by decide⟩]
      obtain ⟨hret, hpos, hcontent, queries, hqueries, hjournal⟩ := ih (n := n + 1) (i := i) _ (by omega) hfirst
      refine ⟨hret, hpos, hcontent, .getBadBlock (n * part.eraseSize) .bad :: queries, ?_, ?_⟩
      · exact List.forall_mem_cons.mpr ⟨rfl, hqueries⟩
      · rw [hjournal]
        simp [BlockWriter.addBadBlockOffset, Fd.getBadBlock, Medium.writeDriver, hi, Medium.withBad, hbad]
    | false =>
      rw [Picks.first_of_pos hlt (by simp [hbad])] at hfirst
      obtain rfl := Option.some.inj hfirst
      have hblock : (Medium.withBad bad worn left).block n = Block.healthy := by
        simp [Medium.withBad, hbad]
      have hfits : (Positions.unbounded part).fits (n * part.eraseSize) := (end_le_size_iff part n).mpr hlt
      obtain ⟨w', heq, hpos, hcontent, hjournal⟩ := writeBlockFromBy_healthy hblock hdata hfits fuel w
      rw [writeBlockFrom, heq]
      exact ⟨rfl, hpos, hcontent, [], by simp, hjournal⟩

/-! ## Runs -/

variable (part) in
/-- What is found where the blocks `bs` are on their way to the numbers `ps`: one of them may hold
anything, with those before it stored and those behind it not yet. -/
def Limbo : List Nat → List Bytes → Content → Content → Prop
  | i :: ps, b :: bs, c, c' =>
    (∀ j, j / part.eraseSize ≠ i → c' j = c j) ∨ Limbo ps bs (c.overwrite (i * part.eraseSize) b) c'
  | _, _, c, c' => c' = c

theorem overwrite_outside {j : Nat} (hdata : data.length = part.eraseSize) (hj : j / part.eraseSize ≠ n)
    (c : Content) : c.overwrite (n * part.eraseSize) data j = c j := by
  rw [Ne, div_eraseSize_eq_iff] at hj
  rcases Nat.lt_or_ge j (n * part.eraseSize) with hbefore | hafter
  · exact Content.overwrite_before hbefore
  · exact Content.overwrite_after (by omega)

/-- One block. -/
theorem states_blockEvents (hdata : data.length = part.eraseSize) {l : List Event} {c c' : Content} :
    Crash.States (Event.effect left) Event.Torn (blockEvents part data n ++ l) c c' ↔
      (∀ j, j / part.eraseSize ≠ n → c' j = c j) ∨
        Crash.States (Event.effect left) Event.Torn l (c.overwrite (n * part.eraseSize) data) c' := by
  have herased : (left.read (n * part.eraseSize) part.eraseSize).length = part.eraseSize :=
    Content.read_length _ _ _
  have htorn : ∀ {e : Event} {c₁ c' : Content} {j : Nat},
      (e.touches = none ∨ e.touches = some (n * part.eraseSize, part.eraseSize)) → e.Torn c₁ c' →
      j / part.eraseSize ≠ n → c' j = c₁ j := by
    intro e c₁ c' j htouches htorn hj
    refine htorn j fun pos length ht hin => ?_
    rcases htouches with hnone | hsome
    · rw [hnone] at ht
      exact absurd ht (by simp)
    · rw [hsome] at ht
      obtain ⟨rfl, rfl⟩ := Prod.mk.inj (Option.some.inj ht)
      exact hj ((div_eraseSize_eq_iff part).mpr hin)
  have hafter := after_blockEvents part left n hdata c
  simp only [blockEvents, Crash.after_cons, Crash.after_nil, Event.effect] at hafter
  simp only [blockEvents, List.cons_append, List.nil_append, Crash.states_cons, Event.effect, hafter]
  constructor
  · rintro (hquery | herase | hwrite | hread | hwrote | hrest)
    · exact .inl fun j hj => htorn (.inl rfl) hquery hj
    · exact .inl fun j hj => htorn (.inr rfl) herase hj
    · refine .inl fun j hj => ?_
      rw [htorn (.inr (by rw [← hdata]; rfl)) hwrite hj, overwrite_outside herased hj]
    · refine .inl fun j hj => ?_
      rw [htorn (.inl rfl) hread hj, overwrite_outside hdata hj]
    · refine .inl fun j hj => ?_
      rw [htorn (.inl rfl) hwrote hj, overwrite_outside hdata hj]
    · exact .inr hrest
  · rintro (hmid | hrest)
    · refine .inr (.inl fun j hj => hmid j fun hin => ?_)
      exact hj _ _ rfl ((div_eraseSize_eq_iff part).mp hin)
    · exact .inr (.inr (.inr (.inr (.inr hrest))))

variable (worn left) in
/-- The blocks of a string, written from block `n` on. -/
theorem writeBlocks_trace {bs : List Bytes} :
    ∀ {n : Nat} {ps : List Nat} {w : BlockWriter Wear},
      (∀ b ∈ bs, b.length = part.eraseSize) → w.fd.pos = n * part.eraseSize →
      Picks.picks (fun _ i => !bad i) (blockCount part) n bs = some ps →
      ∃ (w' : BlockWriter Wear) (l : List Event),
        writeBlocks (writeBlock ((Medium.withBad bad worn left).writeDriver part) part) bs w = some w' ∧
        w'.fd.journal = w.fd.journal ++ l ∧
        w'.fd.state.content = Crash.after (Event.effect left) l w.fd.state.content ∧
        ∀ c c', Crash.States (Event.effect left) Event.Torn l c c' ↔ Limbo part ps bs c c' := by
  induction bs with
  | nil =>
    intro n ps w _ hpos hpicks
    obtain rfl : [] = ps := Option.some.inj hpicks
    exact ⟨w, [], rfl, (List.append_nil _).symm, rfl, fun c c' => Iff.rfl⟩
  | cons b bs ih =>
    intro n ps w hbs hpos hpicks
    have hb := hbs b List.mem_cons_self
    rw [Picks.picks, Option.bind_eq_some_iff] at hpicks
    obtain ⟨i, hfirst, hrest⟩ := hpicks
    obtain ⟨ps, hpicks, rfl⟩ := Option.map_eq_some_iff.mp hrest
    have hfuel : blockCount part - n ≤ part.size + 1 :=
      (Nat.sub_le _ _).trans ((blockCount_le part).trans (Nat.le_succ _))
    obtain ⟨hret, hpos', hcontent, queries, hqueries, hjournal⟩ :=
      writeBlockFrom_trace worn left hb (part.size + 1) w hfuel hfirst
    have hwrite : writeBlockFrom ((Medium.withBad bad worn left).writeDriver part) part b (part.size + 1) w.fd.pos w =
        writeBlock ((Medium.withBad bad worn left).writeDriver part) part b w := rfl
    rw [← hpos, hwrite] at hret hpos' hcontent hjournal
    obtain ⟨w', l, hw', hjournal', hcontent', hstates⟩ :=
      ih (fun b' hb' => hbs b' (List.mem_cons_of_mem _ hb')) hpos' hpicks
    refine ⟨w', queries ++ blockEvents part b i ++ l, ?_, ?_, ?_, fun c c' => ?_⟩
    · rw [writeBlocks_cons hret]
      exact hw'
    · rw [hjournal', hjournal, List.append_assoc]
    · rw [hcontent', hcontent, Crash.after_append, Crash.after_append,
        Crash.after_of_idle _ fun e he c => Event.effect_of_idle (hqueries e he) c, after_blockEvents part left _ hb]
    · rw [List.append_assoc, Crash.states_append_of_idle Event.torn_refl
        (fun e he c => Event.effect_of_idle (hqueries e he) c)
        (fun e he c c' => Event.eq_of_torn (hqueries e he)), states_blockEvents hb, hstates]
      rfl

/-- How many of the blocks are stored. -/
theorem limbo_iff {bs : List Bytes} :
    ∀ {ps : List Nat} {c c' : Content}, (∀ b ∈ bs, b.length = part.eraseSize) → ps.Nodup →
      ps.length = bs.length →
      (Limbo part ps bs c c' ↔ ∃ k ≤ bs.length,
        (ps.take k).map (fun i => c'.read (i * part.eraseSize) part.eraseSize) = bs.take k ∧
          ∀ j, j / part.eraseSize ∉ ps.take (k + 1) → c' j = c j) := by
  induction bs with
  | nil =>
    intro ps c c' _ _ hlen
    obtain rfl : ps = [] := List.length_eq_zero_iff.mp hlen
    simp [Limbo, funext_iff]
  | cons b bs ih =>
    intro ps c c' hbs hnodup hlen
    obtain ⟨i, ps, rfl⟩ : ∃ i ps', ps = i :: ps' := List.exists_cons_of_length_eq_add_one hlen
    obtain ⟨hi, hnodup⟩ := List.nodup_cons.mp hnodup
    obtain ⟨hb, hbs⟩ := List.forall_mem_cons.mp hbs
    have hnext := @ih ps (c.overwrite (i * part.eraseSize) b) c' hbs hnodup (Nat.succ.inj hlen)
    have hself : (c.overwrite (i * part.eraseSize) b).read (i * part.eraseSize) part.eraseSize = b := by
      rw [← hb, Content.read_overwrite]
    have hout : ∀ j, j / part.eraseSize ≠ i → c.overwrite (i * part.eraseSize) b j = c j := by
      intro j hj
      exact overwrite_outside hb hj c
    rw [Limbo, hnext]
    constructor
    · rintro (hmid | ⟨k, hk, hholds, hframe⟩)
      · exact ⟨0, Nat.zero_le _, rfl, fun j hj => hmid j fun heq => hj (by simp [heq])⟩
      · refine ⟨k + 1, Nat.succ_le_succ hk, ?_, fun j hj => ?_⟩
        · have hread : c'.read (i * part.eraseSize) part.eraseSize = b := by
            refine Eq.trans (read_congr fun j hj => hframe j fun hmem => ?_) hself
            rw [hj] at hmem
            exact hi (List.mem_of_mem_take hmem)
          simp only [List.take_succ_cons, List.map_cons, hread, hholds]
        · rw [List.take_succ_cons, List.mem_cons, not_or] at hj
          exact (hframe j hj.2).trans (hout j hj.1)
    · rintro ⟨k, hk, hholds, hframe⟩
      cases k with
      | zero => exact .inl fun j hj => hframe j (by simpa using hj)
      | succ k =>
        simp only [List.take_succ_cons, List.map_cons, List.cons.injEq] at hholds
        refine .inr ⟨k, Nat.le_of_succ_le_succ hk, hholds.2, fun j hj => ?_⟩
        by_cases hji : j / part.eraseSize = i
        · obtain ⟨hge, hlt⟩ := (div_eraseSize_eq_iff part).mp hji
          exact Content.read_eq_iff.mp (hholds.1.trans hself.symm) j hge hlt
        · rw [hout j hji]
          refine hframe j ?_
          rw [List.take_succ_cons, List.mem_cons, not_or]
          exact ⟨hji, hj⟩

/-- How many of the blocks are stored in the first of the good ones. -/
theorem limbo_goodBlocks_iff {bs : List Bytes} {c c' : Content} (hbs : ∀ b ∈ bs, b.length = part.eraseSize)
    (hlen : bs.length ≤ (goodBlocks part bad).length) :
    let ps := (goodBlocks part bad).take bs.length
    Limbo part ps bs c c' ↔ ∃ k ≤ bs.length,
      (ps.take k).map (fun i => c'.read (i * part.eraseSize) part.eraseSize) = bs.take k ∧
        ∀ j, j / part.eraseSize ∉ ps.take (k + 1) → c' j = c j :=
  limbo_iff hbs (((goodBlocks_pairwise part bad).sublist (List.take_sublist _ _)).imp Nat.ne_of_lt)
    (List.length_take_of_le hlen)

variable (worn left) in
/-- What a power failure leaves of the calls on a fresh context and its close. -/
theorem writeAll_states (hsize : part.size < 2 ^ 31) (c : Content) (calls : List Bytes)
    (hfits : (Blocks.padded part.eraseSize 0 calls.flatten).length ≤ (goodBlocks part bad).length) :
    let bs := Blocks.padded part.eraseSize 0 calls.flatten
    let fd := (writeAll ((Medium.withBad bad worn left).writeDriver part) part calls ⟨c, fun _ => 0⟩).2.writer.fd
    fd.state.content = Crash.after (Event.effect left) fd.journal c ∧
      ∀ c', Crash.States (Event.effect left) Event.Torn fd.journal c c' ↔
        Limbo part ((goodBlocks part bad).take bs.length) bs c c' := by
  intro bs fd
  have hbs := fun b (hb : b ∈ bs) => Blocks.length_of_mem_padded part.eraseSize_pos hb
  have hpicks : Picks.picks (fun _ i => !bad i) (blockCount part) 0 bs =
      some ((goodBlocks part bad).take bs.length) := by
    rw [Picks.picks_eq (p := fun i => !bad i) (fun _ _ => rfl), ← goodBlocks_eq hsize, if_pos hfits]
  obtain ⟨w, l, hw, hjournal, hcontent, hstates⟩ := writeBlocks_trace worn left
    (w := ⟨⟨0, ⟨c, fun _ => 0⟩, []⟩, [], 0⟩) hbs (Nat.zero_mul _).symm hpicks
  have hcalls := writeCallsBy_flushPendingBy part (writeBlock ((Medium.withBad bad worn left).writeDriver part) part)
    calls ⟨⟨0, ⟨c, fun _ => 0⟩, []⟩, [], 0⟩
  dsimp only at hcalls
  rw [hw] at hcalls
  have hfd : fd = w.fd := by
    obtain ⟨hclose, -⟩ := writeCloseBy_flushed (Medium.withBad bad worn left) part
      (writeBlock ((Medium.withBad bad worn left).writeDriver part) part)
      (writeCallsBy part (writeBlock ((Medium.withBad bad worn left).writeDriver part) part) calls
        ⟨⟨⟨0, ⟨c, fun _ => 0⟩, []⟩, [], 0⟩, []⟩).2
    rw [hcalls.2] at hclose
    exact hclose
  rw [hfd, hjournal]
  exact ⟨hcontent, fun c' => hstates c c'⟩

end

/-- The power fails while a string is written. The first of the good blocks hold the beginning
of the string, the next one may hold anything, and everything else is as it was; and every such content
may be found. -/
theorem write_crash_iff (part : MtdPartition) (hsize : part.size < 2 ^ 31) (bad : Nat → Bool)
    (worn : Nat → Block) (left c : Content) (calls : List Bytes)
    (hfits : Blocks.count part.eraseSize calls.flatten.length ≤ (goodBlocks part bad).length) :
    let bs := Blocks.padded part.eraseSize 0 calls.flatten
    let ps := (goodBlocks part bad).take bs.length
    let fd := (writeAll ((Medium.withBad bad worn left).writeDriver part) part calls ⟨c, fun _ => 0⟩).2.writer.fd
    fd.state.content = Crash.after (Event.effect left) fd.journal c ∧
      ∀ c', Crash.States (Event.effect left) Event.Torn fd.journal c c' ↔
        ∃ k ≤ bs.length,
          (ps.take k).map (fun i => c'.read (i * part.eraseSize) part.eraseSize) = bs.take k ∧
          ∀ j, j / part.eraseSize ∉ ps.take (k + 1) → c' j = c j := by
  have hpos := part.eraseSize_pos
  rw [← Blocks.padded_length hpos 0] at hfits
  obtain ⟨hcontent, hstates⟩ := writeAll_states worn left hsize c calls hfits
  refine ⟨hcontent, fun c' => (hstates c').trans ?_⟩
  exact limbo_goodBlocks_iff (fun b hb => Blocks.length_of_mem_padded hpos hb) hfits

/-- Three bytes over a bad block: the third is lost. -/
theorem write_crash_iff_three_bytes :
    Crash.States (Event.effect fun _ => 255) Event.Torn
      (writeAll ((Medium.withBad (· == 1) (fun _ => Block.healthy) (fun _ => 255)).writeDriver
        ⟨6, 2, by decide, by decide⟩) ⟨6, 2, by decide, by decide⟩ [[1], [2, 3]]
        ⟨fun _ => 0, fun _ => 0⟩).2.writer.fd.journal (fun _ => 0)
      (fun j => [1, 2, 0, 0, 7, 7].getD j 0) := by
  have hcrash := write_crash_iff ⟨6, 2, by decide, by decide⟩ (by decide) (· == 1) (fun _ => Block.healthy)
    (fun _ => 255) (fun _ => 0) [[1], [2, 3]] (by decide)
  refine (hcrash.2 _).mpr ⟨1, by decide, by decide, fun j hj => ?_⟩
  have hnot : j / 2 ∉ [0, 2] := hj
  have hcases : j = 2 ∨ j = 3 ∨ 6 ≤ j := by
    simp only [List.mem_cons, List.not_mem_nil, or_false, not_or] at hnot
    omega
  obtain rfl | rfl | hbehind := hcases
  · rfl
  · rfl
  · have hnone : ([1, 2, 0, 0, 7, 7] : Bytes)[j]? = none := List.getElem?_eq_none hbehind
    simp [List.getD, hnone]

end LinuxOta.Mtd
