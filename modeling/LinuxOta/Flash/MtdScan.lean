-- SUMMARY: `mtd_scan_partitions` and `mtd_find_partition_by_name`, and the texts for which the scan stays in its table.
import LinuxOta.Base.CString
import LinuxOta.Base.Scanf

namespace LinuxOta.Mtd

/-! # The partition table

`mtd_scan_partitions` reads `/proc/mtd` into a table of 32 entries. The device number of a
line is the index of its entry. -/

/-- An entry of the table, with the types of `MtdPartition`. -/
structure MtdEntry where
  deviceIndex : Int
  size : Nat
  eraseSize : Nat
  name : Option (List Char)
  deriving DecidableEq, Repr

/-- `MtdState`. The table has all its entries as soon as it is allocated. -/
structure MtdState where
  partitions : Option (Vector MtdEntry 32)
  partitionCount : Int

/-- `partitions_allocd`. -/
def MtdState.partitionsAllocd (st : MtdState) : Nat :=
  match st.partitions with
  | none => 0
  | some _ => 32

/-- `g_mtd_state` before the first scan. -/
def MtdState.initial : MtdState := ⟨none, -1⟩

/-- What the calls that a scan makes return. -/
structure ScanAnswers where
  /-- `malloc` succeeds. -/
  malloc : Bool
  opened : Int
  read : Int
  /-- `strdup` succeeds for the name that is stored after so many others. -/
  strdup : Nat → Bool

/-- The loop over the text: the table, the number of partitions, and the indices that entries
were stored at. -/
structure ScanState where
  table : Vector MtdEntry 32
  count : Nat
  stored : List Int

/-- An entry is stored at an index. Outside the table nothing is known of what it overwrites,
and only the index is noted. -/
def ScanState.store (i : Int) (entry : MtdEntry) (s : ScanState) : ScanState :=
  { s with
    table := if 0 ≤ i then s.table.setIfInBounds i.toNat entry else s.table
    stored := s.stored ++ [i] }

open Scanf

/-- `"mtd%d: %x %x \"%63[^\"]"`. -/
def lineFormat : List Directive :=
  literal "mtd" ++
    [.decimal, .char ':', .space, .hex, .space, .hex, .space, .char '"', .upTo '"' 63]

section
variable (conv : Conversions)

/-- The four values of a line that matches. -/
def matchLine (line : List Char) : Option (Int × Nat × Nat × List Char) :=
  match sscanf conv lineFormat line with
  | [.int mtdnum, .unsigned mtdsize, .unsigned mtderasesize, .string mtdname] =>
    some (mtdnum, mtdsize, mtderasesize, mtdname)
  | _ => none

/-- What the loop does with the text from the start of a line on; whether it goes on. -/
def scanLine (strdup : Nat → Bool) (line : List Char) (s : ScanState) : Bool × ScanState :=
  match matchLine conv line with
  | none => (true, s)
  | some (mtdnum, mtdsize, mtderasesize, mtdname) =>
    if strdup s.count then
      (true, { s.store mtdnum ⟨mtdnum, mtdsize, mtderasesize, some mtdname⟩ with count := s.count + 1 })
    else (false, s.store mtdnum ⟨mtdnum, mtdsize, mtderasesize, none⟩)

/-- "Eat the line." -/
def eatLine (rest : List Char) : List Char := (rest.dropWhile (· ≠ '\n')).drop 1

/-- The loop of `mtd_scan_partitions`, or `none` when the turns are used up. `sscanf` sees the
text as far as the next zero. -/
def scanFrom (strdup : Nat → Bool) :
    (turns : Nat) → (rest : List Char) → ScanState → Option (Bool × ScanState)
  | 0, _, _ => none
  | turns + 1, rest, s =>
    if rest.length > 0 then
      match scanLine conv strdup (CString.ofBuffer rest) s with
      | (false, s) => some (false, s)
      | (true, s) => scanFrom strdup turns (eatLine rest) s
    else some (true, s)

/-- What `mtd_scan_partitions` returns, the state after it, and the indices it stored entries
at. -/
structure ScanResult where
  ret : Int
  state : MtdState
  stored : List Int

/-- The bytes that `read` has put into the buffer of `mtd_scan_partitions`. -/
def procBuffer (read : Int) (text : List Char) : List Char := text.take (min read.toNat 2047)

/-- An entry before the scan. The sizes are left from the last one. -/
def MtdEntry.cleared (p : MtdEntry) : MtdEntry := { p with deviceIndex := -1, name := none }

/-- How `mtd_scan_partitions` ends behind its loop. The table is kept after a failure. -/
def ScanState.result : Bool × ScanState → ScanResult
  | (true, s) => ⟨s.count, ⟨some s.table, s.count⟩, s.stored⟩
  | (false, s) => ⟨-1, ⟨some s.table, -1⟩, s.stored⟩

/-- `mtd_scan_partitions`, once the table is allocated. -/
def scanTable (answers : ScanAnswers) (text : List Char) (partitions : Vector MtdEntry 32) :
    Option ScanResult :=
  let start : ScanState := ⟨partitions.map MtdEntry.cleared, 0, []⟩
  if answers.opened < 0 then some (ScanState.result (false, start))
  else if answers.read < 0 then some (ScanState.result (false, start))
  else
    let buf := procBuffer answers.read text
    (scanFrom conv answers.strdup (buf.length + 1) buf start).map ScanState.result

/-- `mtd_scan_partitions` on a text of `/proc/mtd`, or `none` when it does not end. -/
def scanPartitions (answers : ScanAnswers) (text : List Char) (st : MtdState) : Option ScanResult :=
  match st.partitions with
  | some partitions => scanTable conv answers text partitions
  | none =>
    if answers.malloc then scanTable conv answers text (Vector.replicate 32 ⟨0, 0, 0, none⟩)
    else some ⟨-1, st, []⟩

end

/-- `mtd_find_partition_by_name`. -/
def findPartitionByName (name : List Char) (st : MtdState) : Option MtdEntry :=
  match st.partitions with
  | none => none
  | some partitions => partitions.toList.find? fun p => p.deviceIndex ≥ 0 && p.name = some name

/-! ## Lines that match -/

/-- A text that starts with `mtd`, the numbers `num`, `size` and `eraseSize`, and a quote that is
not followed by another one; there follows `tail`. White space may stand before each number and
the quote. -/
def DeviceLine (num size eraseSize : Int) (tail s : List Char) : Prop :=
  ∃ ws₁ index ws₂ sizeText ws₃ eraseText ws₄,
    s = "mtd".toList ++
      (ws₁ ++ (index ++ ':' :: (ws₂ ++ (sizeText ++ (ws₃ ++ (eraseText ++ (ws₄ ++ '"' :: tail))))))) ∧
    (∀ c ∈ ws₁ ++ ws₂ ++ ws₃ ++ ws₄, isSpace c = true) ∧
    IsNumber 10 num index ∧ IsNumber 16 size sizeText ∧ IsNumber 16 eraseSize eraseText ∧
    (ws₃ = [] → ∃ c ∈ eraseText.head?, c = '-' ∨ c = '+') ∧ ∃ c ∈ tail.head?, c ≠ '"'

/-- The name that is stored for what follows the quote. -/
def nameOf (tail : List Char) : List Char := (tail.takeWhile (· ≠ '"')).take 63

section
variable {conv : Conversions} {s tail name : List Char} {i : Int} {m k : Nat}

theorem matchLine_eq_some :
    matchLine conv s = some (i, m, k, name) ↔
      sscanf conv lineFormat s = [.int i, .unsigned m, .unsigned k, .string name] := by
  rw [matchLine]
  split
  · rename_i h
    rw [h]
    simp
  · rename_i h
    refine ⟨fun hnone => by simp at hnone, fun heq => absurd heq (h i m k name)⟩

/-- `sscanf` stores four values only for these texts. -/
theorem exists_deviceLine (h : matchLine conv s = some (i, m, k, name)) :
    ∃ num size eraseSize tail, DeviceLine num size eraseSize tail s ∧ i = conv.int num ∧
      m = conv.unsigned size ∧ k = conv.unsigned eraseSize ∧ name = nameOf tail := by
  rw [matchLine_eq_some, lineFormat, sscanf_literal] at h
  simp only [sscanf_decimal, sscanf_char, sscanf_space_hex, sscanf_hex] at h
  obtain ⟨r₀, rfl, num, _, hnum, hi, r₁, rfl, size, r₂, hsize, hm, erase, r₃, herase, hk, hquote⟩ := h
  rw [sscanf_space, sscanf_char] at hquote
  obtain ⟨tail, htail, hname⟩ := hquote
  rw [sscanf_upTo (by decide)] at hname
  obtain ⟨⟨c, rest, rfl, hc⟩, hname, -⟩ := hname
  obtain ⟨ws₁, index, rfl, hws₁, hindex, -⟩ := scanInt_sound hnum
  obtain ⟨ws₂, sizeText, rfl, hws₂, hsizeText, hend⟩ := scanInt_sound hsize
  obtain ⟨ws₃, eraseText, rfl, hws₃, heraseText, -⟩ := scanInt_sound herase
  have hws₄ : ∀ c ∈ r₃.takeWhile isSpace, isSpace c = true := fun c hc => List.mem_takeWhile_imp hc
  have hws := List.forall_mem_append.mpr ⟨List.forall_mem_append.mpr ⟨List.forall_mem_append.mpr
    ⟨hws₁, hws₂⟩, hws₃⟩, hws₄⟩
  have hsplit := List.takeWhile_append_dropWhile (p := isSpace) (l := r₃)
  rw [htail] at hsplit
  -- a digit would still belong to the number before
  have hsign : ws₃ = [] → ∃ c ∈ eraseText.head?, c = '-' ∨ c = '+' := by
    rintro rfl
    obtain ⟨c', t, rfl, hminus | hplus | hdigit⟩ := heraseText.head
    · exact ⟨c', rfl, .inl hminus⟩
    · exact ⟨c', rfl, .inr hplus⟩
    · have hnot := hend c' rfl
      rw [hdigit] at hnot
      exact absurd hnot (by decide)
  refine ⟨num, size, erase, c :: rest, ⟨ws₁, index, ws₂, sizeText, ws₃, eraseText,
    r₃.takeWhile isSpace, ?_, hws, hindex, hsizeText, heraseText, hsign, ⟨c, rfl, hc⟩⟩, ?_, ?_, ?_, ?_⟩
  · rw [hsplit]
  · exact (Value.int.inj hi).symm
  · exact (Value.unsigned.inj hm).symm
  · exact (Value.unsigned.inj hk).symm
  · exact (Value.string.inj hname).symm

/-- `sscanf` stores four values for all of them. -/
theorem DeviceLine.matchLine_eq {num size eraseSize : Int} (h : DeviceLine num size eraseSize tail s) :
    matchLine conv s =
      some (conv.int num, conv.unsigned size, conv.unsigned eraseSize, nameOf tail) := by
  obtain ⟨ws₁, index, ws₂, sizeText, ws₃, eraseText, ws₄, rfl, hws, hindex, hsize, herase, hsign,
    ⟨c, hc, hquote⟩⟩ := h
  obtain ⟨hws, hws₄⟩ := List.forall_mem_append.mp hws
  obtain ⟨hws, hws₃⟩ := List.forall_mem_append.mp hws
  obtain ⟨hws₁, hws₂⟩ := List.forall_mem_append.mp hws
  obtain ⟨rest, rfl⟩ : ∃ rest, tail = c :: rest := List.head?_eq_some_iff.mp hc
  have hcolon : ∀ rest, EndsNumber 10 (':' :: rest) := fun _ => endsNumber_cons (by decide) (by decide)
  have hend₃ : EndsNumber 16 (ws₄ ++ '"' :: c :: rest) :=
    endsNumber_append hws₄ fun _ => endsNumber_cons (by decide) (by decide)
  have hend₂ : EndsNumber 16 (ws₃ ++ (eraseText ++ (ws₄ ++ '"' :: c :: rest))) := by
    refine endsNumber_append hws₃ fun hnil => ?_
    obtain ⟨c', hc', hsigned⟩ := hsign hnil
    obtain ⟨t, rfl⟩ : ∃ t, eraseText = c' :: t := List.head?_eq_some_iff.mp hc'
    rcases hsigned with rfl | rfl <;> exact endsNumber_cons (by decide) (by decide)
  have hnot : ∀ c' ∈ ('"' :: c :: rest).head?, isSpace c' = false := by
    intro c' hc'
    obtain rfl : '"' = c' := Option.some.inj hc'
    decide
  rw [matchLine_eq_some, lineFormat, sscanf_literal]
  simp only [sscanf_decimal, sscanf_char, sscanf_space_hex, sscanf_hex]
  refine ⟨_, rfl, num, _, scanInt_complete hws₁ hindex (hcolon _), rfl, _, rfl, size, _,
    scanInt_complete hws₂ hsize hend₂, rfl, eraseSize, _, scanInt_complete hws₃ herase hend₃, rfl, ?_⟩
  rw [sscanf_space, (span_append hws₄ hnot).2, sscanf_char]
  exact ⟨_, rfl, (sscanf_upTo (by decide)).mpr ⟨⟨c, rest, rfl, hquote⟩, rfl, rfl⟩⟩

theorem matchLine_eq_some_iff :
    matchLine conv s = some (i, m, k, name) ↔
      ∃ num size eraseSize tail, DeviceLine num size eraseSize tail s ∧ i = conv.int num ∧
        m = conv.unsigned size ∧ k = conv.unsigned eraseSize ∧ name = nameOf tail := by
  constructor
  · exact exists_deviceLine
  · rintro ⟨num, size, eraseSize, tail, hline, rfl, rfl, rfl, rfl⟩
    exact hline.matchLine_eq

end

/-! ## The indices of the entries -/

/-- `line` is a rest of the text that starts at its beginning or behind a line break. -/
def IsLine (text line : List Char) : Prop :=
  line ≠ [] ∧ (line = text ∨ ∃ before, text = before ++ '\n' :: line)

theorem not_isLine_nil {line : List Char} : ¬ IsLine [] line := by
  rintro ⟨hne, rfl | ⟨before, heq⟩⟩
  · exact hne rfl
  · simp at heq

theorem eatLine_of_not_mem {rest : List Char} (h : '\n' ∉ rest) : eatLine rest = [] := by
  have hall : ∀ c ∈ rest, decide (c ≠ '\n') = true :=
    fun c hc => decide_eq_true fun heq => h (heq ▸ hc)
  rw [eatLine, List.dropWhile_eq_nil_iff.mpr hall, List.drop_nil]

theorem eatLine_append {body : List Char} (h : '\n' ∉ body) (rest : List Char) :
    eatLine (body ++ '\n' :: rest) = rest := by
  have hall : ∀ c ∈ body, decide (c ≠ '\n') = true :=
    fun c hc => decide_eq_true fun heq => h (heq ▸ hc)
  have hstop : ∀ c ∈ ('\n' :: rest).head?, decide (c ≠ '\n') = false := by
    intro c hc
    obtain rfl : '\n' = c := Option.some.inj hc
    decide
  rw [eatLine, (span_append hall hstop).2, List.drop_one, List.tail_cons]

/-- The first line, and those behind it. -/
theorem isLine_iff {rest line : List Char} :
    IsLine rest line ↔ rest ≠ [] ∧ line = rest ∨ IsLine (eatLine rest) line := by
  by_cases hbreak : '\n' ∈ rest
  · obtain ⟨body, tail, rfl, hbody⟩ := List.eq_append_cons_of_mem hbreak
    rw [eatLine_append hbody]
    constructor
    · rintro ⟨hne, rfl | ⟨before, heq⟩⟩
      · exact .inl ⟨hne, rfl⟩
      · rcases List.append_eq_append_iff.mp heq with ⟨mid, rfl, hmid⟩ | ⟨mid, rfl, hmid⟩
        · cases mid with
          | nil => exact .inr ⟨hne, .inl (List.cons.inj hmid).2.symm⟩
          | cons c mid => exact .inr ⟨hne, .inr ⟨mid, (List.cons.inj hmid).2⟩⟩
        · cases mid with
          | nil => exact .inr ⟨hne, .inl (List.cons.inj hmid).2⟩
          | cons c mid =>
            obtain ⟨rfl, -⟩ := List.cons.inj hmid
            exact absurd (List.mem_append_right before List.mem_cons_self) hbody
    · rintro (⟨hne, rfl⟩ | ⟨hne, rfl | ⟨before, rfl⟩⟩)
      · exact ⟨hne, .inl rfl⟩
      · exact ⟨hne, .inr ⟨body, rfl⟩⟩
      · exact ⟨hne, .inr ⟨body ++ '\n' :: before, by simp⟩⟩
  · rw [eatLine_of_not_mem hbreak]
    constructor
    · rintro ⟨hne, rfl | ⟨before, rfl⟩⟩
      · exact .inl ⟨hne, rfl⟩
      · simp at hbreak
    · rintro (⟨hne, rfl⟩ | hline)
      · exact ⟨hne, .inl rfl⟩
      · exact absurd hline not_isLine_nil

theorem eatLine_length {rest : List Char} (h : rest ≠ []) : (eatLine rest).length < rest.length := by
  have hdrop := (List.dropWhile_sublist (fun c => decide (c ≠ '\n')) (l := rest)).length_le
  have hpos := List.length_pos_iff.mpr h
  rw [eatLine, List.length_drop]
  omega

section
variable {conv : Conversions} {strdup : Nat → Bool}

theorem mem_scanLine_stored {line : List Char} {s : ScanState} {i : Int} :
    i ∈ (scanLine conv strdup line s).2.stored ↔
      i ∈ s.stored ∨ ∃ m k name, matchLine conv line = some (i, m, k, name) := by
  rw [scanLine]
  cases hmatch : matchLine conv line with
  | none => simp
  | some values =>
    obtain ⟨j, m, k, name⟩ := values
    dsimp only
    have hstored : i ∈ s.stored ++ [j] ↔
        i ∈ s.stored ∨ ∃ m' k' name', some (j, m, k, name) = some (i, m', k', name') := by
      simp [eq_comm]
    split <;> exact hstored

theorem scanLine_goesOn (hstrdup : ∀ n, strdup n = true) (line : List Char) (s : ScanState) :
    (scanLine conv strdup line s).1 = true := by
  rw [scanLine]
  split
  · rfl
  · rw [if_pos (hstrdup _)]

variable (conv) in
/-- A line of the text matches, with the index `i`. -/
def Lists (text : List Char) (i : Int) : Prop :=
  ∃ line m k name, IsLine text line ∧ matchLine conv (CString.ofBuffer line) = some (i, m, k, name)

variable (conv) in
/-- The indices that were stored at, and those of the lines to come. -/
def ScanState.Reaches (rest : List Char) (s : ScanState) (i : Int) : Prop :=
  i ∈ s.stored ∨ Lists conv rest i

theorem reaches_nil {s : ScanState} {i : Int} : s.Reaches conv [] i ↔ i ∈ s.stored := by
  refine ⟨fun h => h.resolve_right ?_, .inl⟩
  rintro ⟨line, -, -, -, hline, -⟩
  exact not_isLine_nil hline

variable (conv strdup) in
/-- A turn stores the index of its line. -/
theorem reaches_scanLine {rest : List Char} (hrest : rest ≠ []) {s : ScanState} {i : Int} :
    s.Reaches conv rest i ↔
      (scanLine conv strdup (CString.ofBuffer rest) s).2.Reaches conv (eatLine rest) i := by
  rw [ScanState.Reaches, ScanState.Reaches, mem_scanLine_stored, or_assoc]
  refine or_congr_right ?_
  constructor
  · rintro ⟨line, m, k, name, hline, hmatch⟩
    rcases isLine_iff.mp hline with ⟨-, rfl⟩ | hline
    · exact .inl ⟨m, k, name, hmatch⟩
    · exact .inr ⟨line, m, k, name, hline, hmatch⟩
  · rintro (⟨m, k, name, hmatch⟩ | ⟨line, m, k, name, hline, hmatch⟩)
    · exact ⟨rest, m, k, name, isLine_iff.mpr (.inl ⟨hrest, rfl⟩), hmatch⟩
    · exact ⟨line, m, k, name, isLine_iff.mpr (.inr hline), hmatch⟩

variable (conv strdup) in
/-- The loop ends, as each turn eats a character. It stores at no other indices than those of
the lines, and at all of them unless a `strdup` fails. -/
theorem scanFrom_stored (turns : Nat) :
    ∀ (rest : List Char) (s : ScanState), rest.length < turns →
      ∃ ok s', scanFrom conv strdup turns rest s = some (ok, s') ∧
        (∀ i ∈ s'.stored, s.Reaches conv rest i) ∧
        ((∀ n, strdup n = true) → ∀ i, s.Reaches conv rest i → i ∈ s'.stored) := by
  induction turns with
  | zero => exact fun rest s hturns => absurd hturns (Nat.not_lt_zero _)
  | succ turns ih =>
    intro rest s hturns
    rw [scanFrom]
    by_cases hrest : rest = []
    · subst hrest
      exact ⟨true, s, rfl, fun i hi => reaches_nil.mpr hi, fun _ i hi => reaches_nil.mp hi⟩
    have hreaches : ∀ i, s.Reaches conv rest i ↔ _ :=
      fun i => reaches_scanLine conv strdup hrest
    have hgoes : (∀ n, strdup n = true) → (scanLine conv strdup (CString.ofBuffer rest) s).1 = true :=
      fun hstrdup => scanLine_goesOn hstrdup _ s
    rw [if_pos (List.length_pos_iff.mpr hrest)]
    generalize scanLine conv strdup (CString.ofBuffer rest) s = r at hreaches hgoes
    obtain ⟨ok, s₁⟩ := r
    cases ok with
    | false =>
      exact ⟨false, s₁, rfl, fun i hi => (hreaches i).mpr (.inl hi),
        fun hstrdup => absurd (hgoes hstrdup) Bool.false_ne_true⟩
    | true =>
      have hlength := eatLine_length hrest
      obtain ⟨ok, s', hrun, honly, hall⟩ := ih (eatLine rest) s₁ (by omega)
      exact ⟨ok, s', hrun, fun i hi => (hreaches i).mpr (honly i hi),
        fun hstrdup i hi => hall hstrdup i ((hreaches i).mp hi)⟩

variable {answers : ScanAnswers} {text : List Char}

@[simp] theorem result_stored (r : Bool × ScanState) : (ScanState.result r).stored = r.2.stored := by
  obtain ⟨ok, s⟩ := r
  cases ok <;> rfl

@[simp] theorem result_partitionsAllocd (r : Bool × ScanState) :
    (ScanState.result r).state.partitionsAllocd = 32 := by
  obtain ⟨ok, s⟩ := r
  cases ok <;> rfl

variable (conv answers text) in
/-- A scan ends. It stores at no other indices than those of the lines, and at all of them
unless a call fails. -/
theorem scanTable_stored (partitions : Vector MtdEntry 32) :
    ∃ r, scanTable conv answers text partitions = some r ∧ r.state.partitionsAllocd = 32 ∧
      (∀ i ∈ r.stored, Lists conv (procBuffer answers.read text) i) ∧
      (0 ≤ answers.opened → 0 ≤ answers.read → (∀ n, answers.strdup n = true) →
        ∀ i, Lists conv (procBuffer answers.read text) i → i ∈ r.stored) := by
  have hstart : ∀ i, (⟨partitions.map MtdEntry.cleared, 0, []⟩ : ScanState).Reaches conv
      (procBuffer answers.read text) i ↔ Lists conv (procBuffer answers.read text) i :=
    fun i => or_iff_right (by simp)
  rw [scanTable]
  dsimp only
  split
  · exact ⟨_, rfl, rfl, by simp, fun hopened => by omega⟩
  split
  · exact ⟨_, rfl, rfl, by simp, fun _ hread => by omega⟩
  obtain ⟨ok, s, hrun, honly, hall⟩ := scanFrom_stored conv answers.strdup
    ((procBuffer answers.read text).length + 1) (procBuffer answers.read text)
    ⟨partitions.map MtdEntry.cleared, 0, []⟩ (Nat.lt_succ_self _)
  refine ⟨ScanState.result (ok, s), by rw [hrun]; rfl, result_partitionsAllocd _, fun i hi => ?_,
    fun _ _ hstrdup i hi => ?_⟩
  · rw [result_stored] at hi
    exact (hstart i).mp (honly i hi)
  · rw [result_stored]
    exact hall hstrdup i ((hstart i).mpr hi)

end

/-- A scan of a text ends and stores in its table, whatever the calls it makes return, if and
only if each line that matches has a device number that is an index of the table. -/
theorem scan_in_range_iff (conv : Conversions) (text : List Char) (read : Int) :
    (∀ malloc opened strdup st, ∃ r, scanPartitions conv ⟨malloc, opened, read, strdup⟩ text st = some r ∧
      ∀ i ∈ r.stored, 0 ≤ i ∧ i < r.state.partitionsAllocd) ↔
      ∀ line num size eraseSize tail, IsLine (procBuffer read text) line →
        DeviceLine num size eraseSize tail (CString.ofBuffer line) →
        0 ≤ conv.int num ∧ conv.int num < 32 := by
  constructor
  · intro h line num size eraseSize tail hline hdevice
    have hread : 0 ≤ read := by
      by_contra hneg
      have hnil : procBuffer read text = [] := by
        rw [procBuffer, Int.toNat_of_nonpos (by omega), Nat.zero_min, List.take_zero]
      rw [hnil] at hline
      exact not_isLine_nil hline
    obtain ⟨r, hr, hrange⟩ := h true 0 (fun _ => true) .initial
    obtain ⟨r', hr', hallocd, -, hall⟩ := scanTable_stored conv ⟨true, 0, read, fun _ => true⟩ text
      (Vector.replicate 32 ⟨0, 0, 0, none⟩)
    obtain rfl : r' = r := Option.some.inj (hr'.symm.trans hr)
    have hmatch : matchLine conv (CString.ofBuffer line) = some (_, _, _, _) :=
      matchLine_eq_some_iff.mpr ⟨num, size, eraseSize, tail, hdevice, rfl, rfl, rfl, rfl⟩
    have hmem := hall (Int.le_refl 0) hread (fun _ => rfl) _ ⟨line, _, _, _, hline, hmatch⟩
    rw [hallocd] at hrange
    exact hrange _ hmem
  · intro h malloc opened strdup st
    have htable : ∀ partitions, ∃ r, scanTable conv ⟨malloc, opened, read, strdup⟩ text partitions = some r ∧
        ∀ i ∈ r.stored, 0 ≤ i ∧ i < r.state.partitionsAllocd := by
      intro partitions
      obtain ⟨r, hr, hallocd, honly, -⟩ :=
        scanTable_stored conv ⟨malloc, opened, read, strdup⟩ text partitions
      refine ⟨r, hr, fun i hi => ?_⟩
      obtain ⟨line, m, k, name, hline, hmatch⟩ := honly i hi
      obtain ⟨num, size, eraseSize, tail, hdevice, rfl, -⟩ := matchLine_eq_some_iff.mp hmatch
      rw [hallocd]
      exact h line num size eraseSize tail hline hdevice
    rw [scanPartitions]
    split
    · exact htable _
    split
    · exact htable _
    · exact ⟨_, rfl, by simp⟩

/-- A device with more partitions than the table. -/
theorem scan_out_of_range :
    let text := "dev:    size   erasesize  name\nmtd32: 00080000 00020000 \"misc\"\n".toList
    (scanPartitions .cutOff ⟨true, 3, 63, fun _ => true⟩ text .initial).map
        (fun r => (r.stored, r.state.partitionsAllocd)) = some ([32], 32) ∧
      ¬ ∀ conv answers st, ∃ r, scanPartitions conv answers text st = some r ∧
        ∀ i ∈ r.stored, 0 ≤ i ∧ i < r.state.partitionsAllocd := by
  intro text
  have hrun : (scanPartitions .cutOff ⟨true, 3, 63, fun _ => true⟩ text .initial).map
      (fun r => (r.stored, r.state.partitionsAllocd)) = some ([32], 32) := by
    decide +kernel
  refine ⟨hrun, fun h => ?_⟩
  obtain ⟨r, hr, hrange⟩ := h .cutOff ⟨true, 3, 63, fun _ => true⟩ .initial
  rw [hr, Option.map_some, Option.some.injEq, Prod.mk.injEq] at hrun
  obtain ⟨hstored, hallocd⟩ := hrun
  rw [hstored, hallocd] at hrange
  exact absurd (hrange 32 (List.mem_singleton.mpr rfl)).2 (by decide)

end LinuxOta.Mtd
