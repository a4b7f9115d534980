-- SUMMARY: A scan of `/proc/mtd`, as the kernel prints it, gives the partition table back.
import LinuxOta.Flash.MtdScan
import Mathlib.Data.List.Nodup

namespace LinuxOta.Mtd

open Numerals Scanf

/-! # Printed tables

The kernel prints a header and a line for each partition. A scan of such a text stores an
entry for each line, and nothing else has a name. -/

/-- A partition that has its place in the table and its line in the text. -/
structure ListedPartition where
  index : Nat
  index_lt : index < 32
  size : Nat
  size_lt : size < 2 ^ 32
  eraseSize : Nat
  eraseSize_lt : eraseSize < 2 ^ 32
  name : List Char
  name_ne_nil : name ≠ []
  name_length : name.length ≤ 63
  name_chars : ∀ c ∈ name, c ≠ '"' ∧ c ≠ '\n' ∧ c ≠ '\x00'

namespace ListedPartition

/-- The entry of a partition. -/
def entry (p : ListedPartition) : MtdEntry := ⟨p.index, p.size, p.eraseSize, some p.name⟩

/-- The line of a partition, without the line break: `mtd%d: %08x %08x "%s"`. -/
def line (p : ListedPartition) : List Char :=
  "mtd".toList ++ (Nat.toDigits 10 p.index ++ (':' :: ([' '] ++ (fixed 16 8 p.size ++
    ([' '] ++ (fixed 16 8 p.eraseSize ++ ([' '] ++ '"' :: (p.name ++ ['"']))))))))

/-- The line breaks and zeros of a text are not those of a line. -/
theorem line_chars (p : ListedPartition) : ∀ c ∈ p.line, c ≠ '\n' ∧ c ≠ '\x00' := by
  have hdigits : ∀ (base : Nat) (c : Char), isDigit base c = true → c ≠ '\n' ∧ c ≠ '\x00' := by
    intro base c hc
    refine ⟨?_, ?_⟩ <;> rintro rfl <;> simp [isDigit, digitValue] at hc
  have hindex := fun c hc =>
    hdigits 10 c (isDigit_of_mem_toDigits (by decide) (by decide) p.index c hc)
  have hsize := fun c hc => hdigits 16 c (isDigit_of_mem_fixed (by decide) (by decide) 8 p.size c hc)
  have herase := fun c hc =>
    hdigits 16 c (isDigit_of_mem_fixed (by decide) (by decide) 8 p.eraseSize c hc)
  have hname := fun c hc => (p.name_chars c hc).2
  simp only [line, List.forall_mem_append, List.forall_mem_cons]
  exact ⟨by simp, hindex, by decide, ⟨by decide, by simp⟩, hsize, ⟨by decide, by simp⟩, herase,
    ⟨by decide, by simp⟩, by decide, hname, by decide, by simp⟩

variable {conv : Conversions}

/-- The line of a partition is read as what was printed. -/
theorem matchLine_line (p : ListedPartition) (rest : List Char) :
    matchLine conv (p.line ++ rest) = some ((p.index : Int), p.size, p.eraseSize, p.name) := by
  have hindex := p.index_lt
  have hnum : IsNumber 10 (p.index : Int) (Nat.toDigits 10 p.index) := by
    have h := isNumber_digits Nat.toDigits_ne_nil
      (isDigit_of_mem_toDigits (by decide : 1 < 10) (by decide) p.index)
    rwa [value_toDigits (by decide) (by decide)] at h
  have hhex : ∀ n : Nat, n < 2 ^ 32 → IsNumber 16 (n : Int) (fixed 16 8 n) := by
    intro n hn
    have hne : fixed 16 8 n ≠ [] := List.ne_nil_of_length_eq_add_one (fixed_length 16 8 n)
    have h := isNumber_digits hne (isDigit_of_mem_fixed (by decide : 0 < 16) (by decide) 8 n)
    rwa [value_fixed (by decide) (by decide) (show n < 16 ^ 8 by omega)] at h
  have hquote : nameOf (p.name ++ '"' :: rest) = p.name := by
    have hname : ∀ c ∈ p.name, decide (c ≠ '"') = true := fun c hc => decide_eq_true (p.name_chars c hc).1
    have hstop : ∀ c ∈ ('"' :: rest).head?, decide (c ≠ '"') = false := by
      intro c hc
      obtain rfl : '"' = c := Option.some.inj hc
      decide
    rw [nameOf, (span_append hname hstop).1, List.take_of_length_le p.name_length]
  have hspaces : ∀ c ∈ ([] : List Char) ++ [' '] ++ [' '] ++ [' '], isSpace c = true := by
    simp [isSpace]
  rw [matchLine_eq_some_iff]
  refine ⟨p.index, p.size, p.eraseSize, p.name ++ '"' :: rest, ⟨[], _, [' '], _, [' '], _, [' '], ?_,
    hspaces, hnum, hhex _ p.size_lt, hhex _ p.eraseSize_lt, fun h => absurd h (by decide), ?_⟩, ?_, ?_, ?_,
    hquote.symm⟩
  · simp [line]
  · obtain ⟨c, t, heq⟩ := List.exists_cons_of_ne_nil p.name_ne_nil
    rw [heq]
    exact ⟨c, rfl, (p.name_chars c (heq ▸ List.mem_cons_self)).1⟩
  · exact (conv.int_of_fits _ (by omega) (by omega)).symm
  · exact (conv.unsigned_of_fits _ p.size_lt).symm
  · exact (conv.unsigned_of_fits _ p.eraseSize_lt).symm

end ListedPartition

/-- The lines of partitions. -/
def printLines (ps : List ListedPartition) : List Char := ps.flatMap fun p => p.line ++ ['\n']

/-- The line before them. -/
def header : List Char := "dev:    size   erasesize  name".toList

/-- `/proc/mtd`, as the kernel prints it. -/
def procMtd (ps : List ListedPartition) : List Char := header ++ '\n' :: printLines ps

/-! ## The scan -/

/-- The table holds the entries of the partitions, and no other entry has a name. -/
structure Holds (ps : List ListedPartition) (s : ScanState) : Prop where
  count_eq : s.count = ps.length
  entries : ∀ p ∈ ps, s.table[p.index]? = some p.entry
  named : ∀ e ∈ s.table.toList, e.name ≠ none → ∃ p ∈ ps, e = p.entry

section
variable {conv : Conversions} {strdup : Nat → Bool} {ps : List ListedPartition} {s : ScanState}

theorem holds_cleared (partitions : Vector MtdEntry 32) :
    Holds [] ⟨partitions.map MtdEntry.cleared, 0, []⟩ where
  count_eq := rfl
  entries := by simp
  named e he hname := by
    rw [Vector.toList_map, List.mem_map] at he
    obtain ⟨e', -, rfl⟩ := he
    exact absurd rfl hname

/-- The entry of a partition goes to an index of its own. -/
theorem Holds.store (h : Holds ps s) {p : ListedPartition}
    (hp : p.index ∉ ps.map ListedPartition.index) :
    Holds (ps ++ [p]) { s.store p.index p.entry with count := s.count + 1 } where
  count_eq := by
    rw [List.length_append, List.length_singleton, ← h.count_eq]
  entries q hq := by
    have hnonneg : (0 : Int) ≤ p.index := Int.natCast_nonneg _
    simp only [ScanState.store, if_pos hnonneg, Int.toNat_natCast]
    rcases List.mem_append.mp hq with hq | hq
    · have hne : p.index ≠ q.index := fun heq => hp (heq ▸ List.mem_map_of_mem hq)
      rw [Vector.getElem?_setIfInBounds_ne hne]
      exact h.entries q hq
    · obtain rfl := List.mem_singleton.mp hq
      exact Vector.getElem?_setIfInBounds_self_of_lt q.index_lt
  named e he hname := by
    have hnonneg : (0 : Int) ≤ p.index := Int.natCast_nonneg _
    simp only [ScanState.store, if_pos hnonneg, Int.toNat_natCast, Vector.toList_setIfInBounds] at he
    rcases List.mem_or_eq_of_mem_set he with he | rfl
    · obtain ⟨q, hq, heq⟩ := h.named e he hname
      exact ⟨q, List.mem_append_left _ hq, heq⟩
    · exact ⟨p, List.mem_append_right _ (List.mem_singleton.mpr rfl), rfl⟩

/-- A turn at the line of a partition stores its entry. -/
theorem scanLine_line (hstrdup : ∀ n, strdup n = true) (p : ListedPartition) (rest : List Char)
    (s : ScanState) :
    scanLine conv strdup (CString.ofBuffer (p.line ++ rest)) s =
      (true, { s.store p.index p.entry with count := s.count + 1 }) := by
  rw [CString.ofBuffer_append fun hmem => (p.line_chars _ hmem).2 rfl, scanLine, p.matchLine_line]
  exact if_pos (hstrdup _)

variable (conv) in
/-- The loop over lines of partitions. -/
theorem scanFrom_printLines (hstrdup : ∀ n, strdup n = true) (ps : List ListedPartition) :
    ∀ (turns : Nat) (done : List ListedPartition) (s : ScanState), (printLines ps).length < turns →
      ((done ++ ps).map ListedPartition.index).Nodup → Holds done s →
      ∃ s', scanFrom conv strdup turns (printLines ps) s = some (true, s') ∧ Holds (done ++ ps) s' := by
  induction ps with
  | nil =>
    intro turns done s hturns _ hs
    obtain ⟨turns, rfl⟩ := Nat.exists_eq_succ_of_ne_zero (Nat.ne_of_gt hturns)
    rw [List.append_nil]
    exact ⟨s, rfl, hs⟩
  | cons p ps ih =>
    intro turns done s hturns hnodup hs
    have hlines : printLines (p :: ps) = p.line ++ '\n' :: printLines ps := by simp [printLines]
    have hbreak : '\n' ∉ p.line := fun hmem => (p.line_chars _ hmem).1 rfl
    obtain ⟨turns, rfl⟩ := Nat.exists_eq_succ_of_ne_zero (Nat.ne_of_gt (Nat.zero_lt_of_lt hturns))
    rw [hlines, List.length_append, List.length_cons] at hturns
    have hmore : (p.line ++ '\n' :: printLines ps).length > 0 := by
      rw [List.length_append, List.length_cons]
      omega
    rw [hlines, scanFrom, if_pos hmore, scanLine_line hstrdup]
    dsimp only
    rw [eatLine_append hbreak]
    have hp : p.index ∉ done.map ListedPartition.index := by
      intro hmem
      rw [List.map_append, List.map_cons] at hnodup
      exact (List.nodup_append.mp hnodup).2.2 _ hmem _ List.mem_cons_self rfl
    rw [List.append_cons] at hnodup ⊢
    exact ih turns (done ++ [p]) _ (by omega) hnodup (hs.store hp)

/-- `sscanf` fails at once on the header. -/
theorem scanLine_header (rest : List Char) (s : ScanState) :
    scanLine conv strdup (CString.ofBuffer (header ++ rest)) s = (true, s) := by
  have hnone : ∀ tail, matchLine conv ('d' :: tail) = none := by
    intro tail
    cases hmatch : matchLine conv ('d' :: tail) with
    | none => rfl
    | some values =>
      obtain ⟨num, size, eraseSize, tail', ⟨ws₁, index, ws₂, sizeText, ws₃, eraseText, ws₄, heq, -⟩, -⟩ :=
        matchLine_eq_some_iff.mp hmatch
      exact absurd (List.cons.inj heq).1 (by decide)
  have hheader : matchLine conv (header ++ CString.ofBuffer rest) = none := hnone _
  rw [CString.ofBuffer_append (by decide), scanLine, hheader]

/-! ## Finding partitions -/

/-- What is found has the name that was looked for. -/
theorem Holds.find_spec (h : Holds ps s) {name : List Char} {e : MtdEntry}
    (hfind : findPartitionByName name ⟨some s.table, s.count⟩ = some e) :
    ∃ p ∈ ps, e = p.entry ∧ p.name = name := by
  rw [findPartitionByName] at hfind
  dsimp only at hfind
  have hsuits := List.find?_some hfind
  rw [Bool.and_eq_true, decide_eq_true_eq, decide_eq_true_eq] at hsuits
  have hnamed : e.name ≠ none := by
    rw [hsuits.2]
    exact Option.some_ne_none _
  obtain ⟨p, hp, rfl⟩ := h.named e (List.mem_of_find?_eq_some hfind) hnamed
  exact ⟨p, hp, rfl, Option.some.inj hsuits.2⟩

/-- A partition is found by its name when the names differ. -/
theorem Holds.find (h : Holds ps s) (hnames : (ps.map ListedPartition.name).Nodup)
    {p : ListedPartition} (hp : p ∈ ps) :
    findPartitionByName p.name ⟨some s.table, s.count⟩ = some p.entry := by
  have hmem : p.entry ∈ s.table.toList :=
    Vector.mem_toList_iff.mpr (Vector.mem_of_getElem? (h.entries p hp))
  cases hfind : findPartitionByName p.name ⟨some s.table, s.count⟩ with
  | none =>
    have hnot := List.find?_eq_none.mp hfind p.entry hmem
    simp [ListedPartition.entry] at hnot
  | some e =>
    obtain ⟨q, hq, rfl, hname⟩ := h.find_spec hfind
    rw [List.inj_on_of_nodup_map hnames hq hp hname]

/-- No other name is found. -/
theorem Holds.find_none (h : Holds ps s) {name : List Char}
    (hname : name ∉ ps.map ListedPartition.name) :
    findPartitionByName name ⟨some s.table, s.count⟩ = none := by
  cases hfind : findPartitionByName name ⟨some s.table, s.count⟩ with
  | none => rfl
  | some e =>
    obtain ⟨p, hp, -, rfl⟩ := h.find_spec hfind
    exact absurd (List.mem_map_of_mem hp) hname

/-- The calls of a scan succeed, and `read` delivers the text. -/
structure ScanAnswers.Succeed (answers : ScanAnswers) (text : List Char) : Prop where
  malloc : answers.malloc = true
  opened : 0 ≤ answers.opened
  read : answers.read = text.length
  strdup : ∀ n, answers.strdup n = true

theorem procBuffer_of_length {read : Int} {text : List Char} (hread : read = text.length)
    (hlength : text.length ≤ 2047) : procBuffer read text = text := by
  rw [procBuffer, hread, Int.toNat_natCast, Nat.min_eq_left hlength, List.take_length]

variable (conv) in
/-- The scan of a printed table, whatever the entries were before. -/
theorem scanTable_printed (hindices : (ps.map ListedPartition.index).Nodup)
    (hlength : (procMtd ps).length ≤ 2047) {answers : ScanAnswers}
    (hanswers : answers.Succeed (procMtd ps)) (partitions : Vector MtdEntry 32) :
    ∃ s, scanTable conv answers (procMtd ps) partitions = some (ScanState.result (true, s)) ∧ Holds ps s := by
  have hopened := hanswers.opened
  have hread := hanswers.read
  have hheader : '\n' ∉ header := by decide
  rw [scanTable, if_neg (by omega), if_neg (by omega), procBuffer_of_length hread hlength]
  dsimp only
  have hmore : (header ++ '\n' :: printLines ps).length > (printLines ps).length := by
    rw [List.length_append, List.length_cons]
    omega
  rw [procMtd, scanFrom, if_pos (Nat.zero_lt_of_lt hmore), scanLine_header]
  dsimp only
  rw [eatLine_append hheader]
  obtain ⟨s, hrun, hs⟩ := scanFrom_printLines conv hanswers.strdup ps
    (header ++ '\n' :: printLines ps).length [] ⟨partitions.map MtdEntry.cleared, 0, []⟩
    hmore hindices (holds_cleared partitions)
  refine ⟨s, ?_, hs⟩
  rw [hrun]
  rfl

end

/-- A scan of a printed table of partitions with their own indices and names succeeds from any
state. Then each partition is found by its name, with its index and sizes, and no other name is
found. -/
theorem scan_printed (conv : Conversions) (ps : List ListedPartition)
    (hindices : (ps.map ListedPartition.index).Nodup) (hnames : (ps.map ListedPartition.name).Nodup)
    (hlength : (procMtd ps).length ≤ 2047) {answers : ScanAnswers}
    (hanswers : answers.Succeed (procMtd ps)) (st : MtdState) :
    ∃ r, scanPartitions conv answers (procMtd ps) st = some r ∧ r.ret = ps.length ∧
      (∀ p ∈ ps, ∃ e, findPartitionByName p.name r.state = some e ∧ e.deviceIndex = p.index ∧
        e.size = p.size ∧ e.eraseSize = p.eraseSize) ∧
      ∀ name, name ∉ ps.map ListedPartition.name → findPartitionByName name r.state = none := by
  have htable : ∃ partitions, scanPartitions conv answers (procMtd ps) st =
      scanTable conv answers (procMtd ps) partitions := by
    rw [scanPartitions]
    split
    · exact ⟨_, rfl⟩
    · exact ⟨_, if_pos hanswers.malloc⟩
  obtain ⟨partitions, heq⟩ := htable
  obtain ⟨s, hrun, hs⟩ := scanTable_printed conv hindices hlength hanswers partitions
  refine ⟨_, heq.trans hrun, congrArg Nat.cast hs.count_eq, fun p hp => ?_, fun name => hs.find_none⟩
  exact ⟨p.entry, hs.find hnames hp, rfl, rfl, rfl⟩

/-- Two partitions that are not in the order of their indices. -/
theorem scan_printed_two :
    let misc : ListedPartition := ⟨4, by decide, 0x100000, by decide, 0x20000, by decide, "misc".toList,
      by decide, by decide, by simp⟩
    let boot : ListedPartition := ⟨0, by decide, 0x400000, by decide, 0x20000, by decide, "boot_a".toList,
      by decide, by decide, by simp⟩
    let text := procMtd [misc, boot]
    ∃ r, scanPartitions .cutOff ⟨true, 3, text.length, fun _ => true⟩ text .initial = some r ∧ r.ret = 2 := by
  intro misc boot text
  have hsucceed : ScanAnswers.Succeed ⟨true, 3, text.length, fun _ => true⟩ text :=
    ⟨rfl, by decide, rfl, fun _ => rfl⟩
  obtain ⟨r, hr, hret, -⟩ := scan_printed .cutOff [misc, boot] (by decide) (by decide)
    (by decide +kernel) hsucceed .initial
  exact ⟨r, hr, hret⟩

end LinuxOta.Mtd
