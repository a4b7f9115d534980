-- SUMMARY: `sscanf` with literal characters, white space, `%d`, `%x` and `%<width>[^<stop>]`, and what its conversions match.
import LinuxOta.Base.Numerals
import Mathlib.Algebra.Group.Int.Defs
import Mathlib.Data.List.TakeWhile

/-! # sscanf

A format is a list of directives, which are carried out one after the other until one
of them fails. Numbers that do not fit into an `int` or `unsigned int` are stored as the
implementation likes. -/

namespace Scanf

open Numerals

/-- `isspace`. -/
def isSpace (c : Char) : Bool := c = ' ' || ('\t' ≤ c && c ≤ '\r')

/-- What an implementation stores for a number that was read. -/
structure Conversions where
  int : Int → Int
  unsigned : Int → Nat
  int_of_fits : ∀ v, -2 ^ 31 ≤ v → v < 2 ^ 31 → int v = v
  int_fits : ∀ v, -2 ^ 31 ≤ int v ∧ int v < 2 ^ 31
  unsigned_of_fits : ∀ n : Nat, n < 2 ^ 32 → unsigned n = n
  unsigned_fits : ∀ v, unsigned v < 2 ^ 32

/-- Numbers are cut off to 32 bits. -/
def Conversions.cutOff : Conversions where
  int v := (v + 2 ^ 31) % 2 ^ 32 - 2 ^ 31
  unsigned v := (v % 2 ^ 32).toNat
  int_of_fits v _ _ := by omega
  int_fits v := by omega
  unsigned_of_fits n _ := by omega
  unsigned_fits v := by omega

/-! ## Numbers -/

/-- Whether there is a minus sign, and what follows the sign. -/
def splitSign (s : List Char) : Bool × List Char :=
  if s.head? = some '-' then (true, s.tail)
  else if s.head? = some '+' then (false, s.tail)
  else (false, s)

/-- What follows the `0x` that a number in base 16 may have. -/
def dropBase (base : Nat) (s : List Char) : List Char :=
  if base = 16 ∧ (s.take 2 = ['0', 'x'] ∨ s.take 2 = ['0', 'X']) then s.drop 2 else s

/-- The number that `strtol` or `strtoul` reads, without its bounds, and what follows it. -/
def scanInt (base : Nat) (s : List Char) : Option (Int × List Char) :=
  let (neg, s) := splitSign (s.dropWhile isSpace)
  let s := dropBase base s
  let digits := s.takeWhile (isDigit base)
  if digits = [] then none
  else some (if neg then -(value base digits : Int) else value base digits, s.dropWhile (isDigit base))

/-- The signs of a number. -/
inductive IsSign : Bool → List Char → Prop where
  | none : IsSign false []
  | plus : IsSign false ['+']
  | minus : IsSign true ['-']

/-- What may stand before the digits of a base. -/
inductive IsBasePrefix (base : Nat) : List Char → Prop where
  | none : IsBasePrefix base []
  | lower : base = 16 → IsBasePrefix base ['0', 'x']
  | upper : base = 16 → IsBasePrefix base ['0', 'X']

/-- The text is a number with the value `v`. -/
def IsNumber (base : Nat) (v : Int) (text : List Char) : Prop :=
  ∃ neg sign pre digits, IsSign neg sign ∧ IsBasePrefix base pre ∧ digits ≠ [] ∧
    (∀ c ∈ digits, isDigit base c = true) ∧ text = sign ++ (pre ++ digits) ∧
    v = if neg then -(value base digits : Int) else value base digits

/-- A number ends before such a text. -/
def EndsNumber (base : Nat) (rest : List Char) : Prop :=
  ∀ c ∈ rest.head?, isDigit base c = false ∧ c ≠ 'x' ∧ c ≠ 'X'

section
variable {base : Nat} {p : Char → Bool} {a b s ws text rest : List Char} {v : Int}

/-- The longest beginning with `p`. -/
theorem span_append (ha : ∀ c ∈ a, p c = true) (hb : ∀ c ∈ b.head?, p c = false) :
    (a ++ b).takeWhile p = a ∧ (a ++ b).dropWhile p = b := by
  rw [List.takeWhile_append_of_pos ha, List.dropWhile_append_of_pos ha]
  cases b with
  | nil => simp
  | cons c b =>
    have hc : p c = false := hb c rfl
    simp [hc]

theorem head_dropWhile (p : Char → Bool) (s : List Char) : ∀ c ∈ (s.dropWhile p).head?, p c = false := by
  intro c hc
  have hnot := List.head?_dropWhile_not p s
  rw [Option.mem_def.mp hc] at hnot
  simpa using hnot

theorem isSpace_of_isDigit {c : Char} (h : isDigit base c = true) : isSpace c = false := by
  by_contra hspace
  rw [Bool.not_eq_false, isSpace, Bool.or_eq_true, Bool.and_eq_true, decide_eq_true_eq,
    decide_eq_true_eq, decide_eq_true_eq] at hspace
  have h0 : ¬ '0' ≤ c := by
    rcases hspace with rfl | ⟨-, hle⟩
    · decide
    · exact fun hge => absurd (Char.le_trans hge hle) (by decide)
  have ha : ¬ 'a' ≤ c := fun hle => h0 (Char.le_trans (by decide) hle)
  have hA : ¬ 'A' ≤ c := fun hle => h0 (Char.le_trans (by decide) hle)
  have hnone : digitValue c = none := by simp [digitValue, h0, ha, hA]
  simp [isDigit, hnone] at h

/-! ## What is read as a number -/

theorem splitSign_sound (s : List Char) :
    ∃ sign, IsSign (splitSign s).1 sign ∧ s = sign ++ (splitSign s).2 := by
  rw [splitSign]
  split
  · rename_i hminus
    exact ⟨['-'], .minus, (List.cons_head?_tail hminus).symm⟩
  split
  · rename_i hplus
    exact ⟨['+'], .plus, (List.cons_head?_tail hplus).symm⟩
  · exact ⟨[], .none, rfl⟩

theorem dropBase_sound (base : Nat) (s : List Char) :
    ∃ pre, IsBasePrefix base pre ∧ s = pre ++ dropBase base s := by
  have hsplit := List.take_append_drop 2 s
  rw [dropBase]
  split
  · rename_i hprefix
    obtain ⟨hbase, hlower | hupper⟩ := hprefix
    · exact ⟨_, .lower hbase, by rw [← hlower, hsplit]⟩
    · exact ⟨_, .upper hbase, by rw [← hupper, hsplit]⟩
  · exact ⟨[], .none, rfl⟩

theorem scanInt_sound (h : scanInt base s = some (v, rest)) :
    ∃ ws text, s = ws ++ (text ++ rest) ∧ (∀ c ∈ ws, isSpace c = true) ∧ IsNumber base v text ∧
      ∀ c ∈ rest.head?, isDigit base c = false := by
  obtain ⟨sign, hsign, heq⟩ := splitSign_sound (s.dropWhile isSpace)
  obtain ⟨pre, hpre, heq'⟩ := dropBase_sound base (splitSign (s.dropWhile isSpace)).2
  rw [scanInt] at h
  generalize splitSign (s.dropWhile isSpace) = r at h hsign heq heq'
  obtain ⟨neg, s₁⟩ := r
  dsimp only at h hsign heq heq'
  generalize dropBase base s₁ = s₂ at h heq'
  split at h
  · cases h
  rename_i hdigits
  obtain ⟨rfl, rfl⟩ := Prod.mk.inj (Option.some.inj h)
  have hsplit := List.takeWhile_append_dropWhile (p := isDigit base) (l := s₂)
  refine ⟨s.takeWhile isSpace, sign ++ (pre ++ s₂.takeWhile (isDigit base)), ?_,
    fun c hc => List.mem_takeWhile_imp hc,
    ⟨neg, sign, pre, _, hsign, hpre, hdigits, fun c hc => List.mem_takeWhile_imp hc, rfl, rfl⟩,
    head_dropWhile (isDigit base) s₂⟩
  rw [List.append_assoc, List.append_assoc, hsplit, ← heq', ← heq, List.takeWhile_append_dropWhile]

theorem splitSign_append {neg : Bool} {sign : List Char} (hsign : IsSign neg sign)
    (hs : ∀ c ∈ s.head?, c ≠ '-' ∧ c ≠ '+') : splitSign (sign ++ s) = (neg, s) := by
  cases hsign with
  | none =>
    have hminus : s.head? ≠ some '-' := fun h => (hs '-' h).1 rfl
    have hplus : s.head? ≠ some '+' := fun h => (hs '+' h).2 rfl
    rw [List.nil_append, splitSign, if_neg hminus, if_neg hplus]
  | plus => rfl
  | minus => rfl

theorem dropBase_append {pre : List Char} (hpre : IsBasePrefix base pre) (ha : a ≠ [])
    (hdigits : ∀ c ∈ a, isDigit base c = true) (hrest : EndsNumber base rest) :
    dropBase base (pre ++ (a ++ rest)) = a ++ rest := by
  cases hpre with
  | lower hbase => exact if_pos ⟨hbase, .inl rfl⟩
  | upper hbase => exact if_pos ⟨hbase, .inr rfl⟩
  | none =>
    -- the second character is a digit, or the first behind the number
    refine if_neg ?_
    rintro ⟨rfl, hx⟩
    obtain ⟨c, a, rfl⟩ := List.exists_cons_of_ne_nil ha
    have hsecond : ∀ d ∈ (a ++ rest).head?, d ≠ 'x' ∧ d ≠ 'X' := by
      intro d hd
      cases a with
      | nil => exact (hrest d hd).2
      | cons d' a =>
        obtain rfl : d' = d := Option.some.inj hd
        have hdigit := hdigits d' (by simp)
        refine ⟨?_, ?_⟩ <;> rintro rfl <;> exact absurd hdigit (by decide)
    cases hsplit : a ++ rest with
    | nil => simp [hsplit] at hx
    | cons d t =>
      have hd := hsecond d (by simp [hsplit])
      simp [hsplit, hd.1, hd.2] at hx

/-- Digits start with a digit, also behind their prefix. -/
theorem head_digits {pre : List Char} (hpre : IsBasePrefix base pre) (ha : a ≠ [])
    (hdigits : ∀ c ∈ a, isDigit base c = true) :
    ∃ c t, pre ++ a = c :: t ∧ isDigit base c = true := by
  cases hpre with
  | lower hbase =>
    subst hbase
    exact ⟨'0', 'x' :: a, rfl, by decide⟩
  | upper hbase =>
    subst hbase
    exact ⟨'0', 'X' :: a, rfl, by decide⟩
  | none =>
    obtain ⟨c, a, rfl⟩ := List.exists_cons_of_ne_nil ha
    exact ⟨c, a, rfl, hdigits c List.mem_cons_self⟩

/-- A number starts with a sign or a digit. -/
theorem IsNumber.head (h : IsNumber base v text) :
    ∃ c t, text = c :: t ∧ (c = '-' ∨ c = '+' ∨ isDigit base c = true) := by
  obtain ⟨neg, sign, pre, digits, hsign, hpre, hne, hdigits, rfl, -⟩ := h
  cases hsign with
  | none =>
    obtain ⟨c, t, heq, hc⟩ := head_digits hpre hne hdigits
    exact ⟨c, t, heq, .inr (.inr hc)⟩
  | plus => exact ⟨'+', pre ++ digits, rfl, .inr (.inl rfl)⟩
  | minus => exact ⟨'-', pre ++ digits, rfl, .inl rfl⟩

/-- Digits are a number. -/
theorem isNumber_digits (hne : a ≠ []) (ha : ∀ c ∈ a, isDigit base c = true) :
    IsNumber base (value base a) a :=
  ⟨false, [], [], a, .none, .none, hne, ha, rfl, rfl⟩

theorem endsNumber_cons {c : Char} (hdigit : isDigit base c = false) (hx : c ≠ 'x' ∧ c ≠ 'X') :
    EndsNumber base (c :: rest) := by
  intro d hd
  obtain rfl : c = d := Option.some.inj hd
  exact ⟨hdigit, hx⟩

/-- White space ends a number; without any, what follows has to. -/
theorem endsNumber_append (hws : ∀ c ∈ ws, isSpace c = true) (hrest : ws = [] → EndsNumber base rest) :
    EndsNumber base (ws ++ rest) := by
  cases ws with
  | nil => exact hrest rfl
  | cons c ws =>
    have hspace := hws c List.mem_cons_self
    refine endsNumber_cons ?_ ⟨?_, ?_⟩
    · cases hdigit : isDigit base c with
      | false => rfl
      | true =>
        rw [isSpace_of_isDigit hdigit] at hspace
        exact hspace.symm
    · rintro rfl
      exact absurd hspace (by decide)
    · rintro rfl
      exact absurd hspace (by decide)

/-- White space before a number does not matter. -/
theorem scanInt_dropWhile (base : Nat) (s : List Char) : scanInt base (s.dropWhile isSpace) = scanInt base s := by
  have hnone : ∀ c ∈ ([] : List Char), isSpace c = true := by simp
  have htwice := (span_append hnone (head_dropWhile isSpace s)).2
  rw [List.nil_append] at htwice
  rw [scanInt, htwice, scanInt]

/-- A number behind white space is read as far as it goes. -/
theorem scanInt_complete (hws : ∀ c ∈ ws, isSpace c = true) (htext : IsNumber base v text)
    (hrest : EndsNumber base rest) :
    scanInt base (ws ++ (text ++ rest)) = some (v, rest) := by
  obtain ⟨neg, sign, pre, digits, hsign, hpre, hne, hdigits, rfl, rfl⟩ := htext
  have hnosign : ∀ c ∈ (pre ++ digits ++ rest).head?, c ≠ '-' ∧ c ≠ '+' := by
    obtain ⟨c, t, heq, hc⟩ := head_digits hpre hne hdigits
    rw [heq]
    intro c' hc'
    obtain rfl : c = c' := Option.some.inj hc'
    refine ⟨?_, ?_⟩ <;> rintro rfl <;> simp [isDigit, digitValue] at hc
  have hnospace : ∀ c ∈ (sign ++ (pre ++ digits) ++ rest).head?, isSpace c = false := by
    obtain ⟨c, t, heq, hc⟩ :=
      IsNumber.head ⟨neg, sign, pre, digits, hsign, hpre, hne, hdigits, rfl, rfl⟩
    rw [heq]
    intro c' hc'
    obtain rfl : c = c' := Option.some.inj hc'
    rcases hc with rfl | rfl | hdigit
    · decide
    · decide
    · exact isSpace_of_isDigit hdigit
  obtain ⟨htake, hdrop⟩ := span_append hdigits fun c hc => (hrest c hc).1
  rw [scanInt, (span_append hws hnospace).2, List.append_assoc, splitSign_append hsign hnosign]
  dsimp only
  rw [List.append_assoc, dropBase_append hpre hne hdigits hrest, htake, hdrop, if_neg hne]

end

/-! ## Directives -/

inductive Directive where
  /-- Any amount of white space. -/
  | space
  | char (c : Char)
  /-- `%d`. -/
  | decimal
  /-- `%x`. -/
  | hex
  /-- `%<width>[^<stop>]`. -/
  | upTo (stop : Char) (width : Nat)
  deriving DecidableEq

inductive Value where
  | int (v : Int)
  | unsigned (n : Nat)
  | string (s : List Char)
  deriving DecidableEq

/-- The characters of a format that stand for themselves. -/
def literal (text : String) : List Directive := text.toList.map .char

section
variable (conv : Conversions)

/-- The values a directive stores, and the input behind what it matched. -/
def Directive.run : Directive → List Char → Option (List Value × List Char)
  | space, s => some ([], s.dropWhile isSpace)
  | char c, s => if s.head? = some c then some ([], s.tail) else none
  | decimal, s => (scanInt 10 s).map fun (v, rest) => ([.int (conv.int v)], rest)
  | hex, s => (scanInt 16 s).map fun (v, rest) => ([.unsigned (conv.unsigned v)], rest)
  | upTo stop width, s =>
    let text := (s.takeWhile (· ≠ stop)).take width
    if text = [] then none else some ([.string text], s.drop text.length)

/-- `sscanf`: the values that are stored before a directive fails. -/
def sscanf : List Directive → List Char → List Value
  | [], _ => []
  | d :: ds, s =>
    match d.run conv s with
    | none => []
    | some (values, rest) => values ++ sscanf ds rest

variable {conv} {ds : List Directive} {s : List Char} {v : Value} {vs : List Value}

theorem sscanf_space : sscanf conv (.space :: ds) s = sscanf conv ds (s.dropWhile isSpace) := rfl

theorem sscanf_space_hex : sscanf conv (.space :: .hex :: ds) s = sscanf conv (.hex :: ds) s := by
  rw [sscanf_space, sscanf, sscanf, Directive.run, Directive.run, scanInt_dropWhile]

theorem sscanf_char {c : Char} :
    sscanf conv (.char c :: ds) s = v :: vs ↔ ∃ rest, s = c :: rest ∧ sscanf conv ds rest = v :: vs := by
  cases s with
  | nil => simp [sscanf, Directive.run]
  | cons c' s =>
    by_cases hc : c' = c
    · simp [sscanf, Directive.run, hc]
    · simp [sscanf, Directive.run, hc]

theorem sscanf_literal {text : String} :
    sscanf conv (literal text ++ ds) s = v :: vs ↔
      ∃ rest, s = text.toList ++ rest ∧ sscanf conv ds rest = v :: vs := by
  rw [literal]
  generalize text.toList = cs
  induction cs generalizing s with
  | nil => simp
  | cons c cs ih =>
    rw [List.map_cons, List.cons_append, sscanf_char]
    simp only [ih, List.cons_append]
    constructor
    · rintro ⟨-, rfl, rest, rfl, h⟩
      exact ⟨rest, rfl, h⟩
    · rintro ⟨rest, rfl, h⟩
      exact ⟨_, rfl, rest, rfl, h⟩

/-- A directive for numbers stores the value `store n` for the number `n`. -/
theorem sscanf_number {d : Directive} {base : Nat} {store : Int → Value}
    (hrun : ∀ s, d.run conv s = (scanInt base s).map fun (n, rest) => ([store n], rest)) :
    sscanf conv (d :: ds) s = v :: vs ↔
      ∃ n rest, scanInt base s = some (n, rest) ∧ store n = v ∧ sscanf conv ds rest = vs := by
  cases h : scanInt base s with
  | none => simp [sscanf, hrun, h]
  | some r =>
    obtain ⟨n, rest⟩ := r
    simp [sscanf, hrun, h]

theorem sscanf_decimal :
    sscanf conv (.decimal :: ds) s = v :: vs ↔
      ∃ n rest, scanInt 10 s = some (n, rest) ∧ .int (conv.int n) = v ∧ sscanf conv ds rest = vs :=
  sscanf_number fun _ => rfl

theorem sscanf_hex :
    sscanf conv (.hex :: ds) s = v :: vs ↔
      ∃ n rest, scanInt 16 s = some (n, rest) ∧ .unsigned (conv.unsigned n) = v ∧ sscanf conv ds rest = vs :=
  sscanf_number fun _ => rfl

/-- A string that is stored is not empty. -/
theorem sscanf_upTo {stop : Char} {width : Nat} (hwidth : 0 < width) :
    sscanf conv (.upTo stop width :: ds) s = v :: vs ↔
      (∃ c rest, s = c :: rest ∧ c ≠ stop) ∧
        let text := (s.takeWhile (· ≠ stop)).take width
        .string text = v ∧ sscanf conv ds (s.drop text.length) = vs := by
  obtain ⟨w, rfl⟩ := Nat.exists_eq_succ_of_ne_zero (Nat.ne_of_gt hwidth)
  cases s with
  | nil => simp [sscanf, Directive.run]
  | cons c s =>
    by_cases hc : c = stop
    · simp [sscanf, Directive.run, hc]
    · simp [sscanf, Directive.run, hc]

end

end Scanf
