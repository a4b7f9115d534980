-- SUMMARY: C strings as character lists: termination, substring search, and bounded comparison.
import Mathlib.Data.List.Infix
import Mathlib.Data.List.Basic

/-! # C strings

A `Char` stands for one byte. -/

namespace CString

/-- The string in a buffer: everything before the first zero. -/
def ofBuffer (buf : List Char) : List Char :=
  buf.takeWhile (· ≠ '\x00')

theorem ofBuffer_append {a : List Char} (h : '\x00' ∉ a) (b : List Char) :
    ofBuffer (a ++ b) = a ++ ofBuffer b :=
  List.takeWhile_append_of_pos fun _ hc => decide_eq_true fun heq => h (heq ▸ hc)

/-- A string without zeros is what a buffer holds that starts with it. -/
theorem ofBuffer_eq_self {s : List Char} (h : '\x00' ∉ s) : ofBuffer s = s := by
  simpa [ofBuffer] using ofBuffer_append h []

/-- `strstr`: the rest of `hay` from the first occurrence of `needle` on. -/
def strstr (hay needle : List Char) : Option (List Char) :=
  hay.tails.find? fun t => needle.isPrefixOf t

/-- `strncmp(s, t, t.length) == 0`, for a `t` without zeros. -/
def startsWith (s t : List Char) : Bool :=
  t.isPrefixOf s

/-- `needle` occurs in `hay` first after `before`, and `rest` follows it. -/
structure FirstOccurrence (hay needle before rest : List Char) : Prop where
  eq : hay = before ++ needle ++ rest
  first : ∀ before' rest', hay = before' ++ needle ++ rest' → before.length ≤ before'.length

/-- At the beginning of a text there is no earlier one. -/
theorem firstOccurrence_nil_iff {hay needle rest : List Char} :
    FirstOccurrence hay needle [] rest ↔ hay = needle ++ rest :=
  ⟨FirstOccurrence.eq, fun h => ⟨h, fun _ _ _ => Nat.zero_le _⟩⟩

/-- A text that does not begin with the needle is searched behind its first character. -/
theorem firstOccurrence_cons_iff {c : Char} {hay needle before rest : List Char}
    (hnot : ¬ needle <+: c :: hay) :
    FirstOccurrence (c :: hay) needle before rest ↔
      ∃ before', before = c :: before' ∧ FirstOccurrence hay needle before' rest := by
  constructor
  · rintro ⟨heq, hfirst⟩
    cases before with
    | nil => exact absurd ⟨rest, heq.symm⟩ hnot
    | cons c' before' =>
      obtain ⟨rfl, htail⟩ := List.cons.inj heq
      refine ⟨before', rfl, htail, fun before'' rest' heq' => ?_⟩
      exact Nat.le_of_succ_le_succ (hfirst (c :: before'') rest' (congrArg (c :: ·) heq'))
  · rintro ⟨before', rfl, heq, hfirst⟩
    refine ⟨congrArg (c :: ·) heq, fun before'' rest' heq' => ?_⟩
    cases before'' with
    | nil => exact absurd ⟨rest', heq'.symm⟩ hnot
    | cons c' before'' => exact Nat.succ_le_succ (hfirst before'' rest' (List.cons.inj heq').2)

theorem strstr_cons (c : Char) (hay needle : List Char) :
    strstr (c :: hay) needle =
      if needle.isPrefixOf (c :: hay) then some (c :: hay) else strstr hay needle := by
  simp only [strstr, List.tails_cons, List.find?_cons]
  cases needle.isPrefixOf (c :: hay) <;> rfl

/-- `strstr` finds the first occurrence. -/
theorem strstr_eq_some_iff {hay needle found : List Char} :
    strstr hay needle = some found ↔
      ∃ before rest, found = needle ++ rest ∧ FirstOccurrence hay needle before rest := by
  induction hay with
  | nil =>
    constructor
    · intro h
      obtain ⟨rfl, rfl⟩ : needle = [] ∧ [] = found := by simpa [strstr, List.find?] using h
      exact ⟨[], [], rfl, firstOccurrence_nil_iff.mpr rfl⟩
    · rintro ⟨before, rest, rfl, heq, -⟩
      obtain ⟨⟨rfl, rfl⟩, rfl⟩ : (before = [] ∧ needle = []) ∧ rest = [] := by
        simpa [and_assoc] using heq.symm
      rfl
  | cons c hay ih =>
    rw [strstr_cons]
    by_cases hhere : needle <+: c :: hay
    · rw [if_pos (List.isPrefixOf_iff_prefix.mpr hhere)]
      obtain ⟨rest, hrest⟩ := hhere
      constructor
      · rintro ⟨⟩
        exact ⟨[], rest, hrest.symm, firstOccurrence_nil_iff.mpr hrest.symm⟩
      · rintro ⟨before, rest', rfl, h⟩
        obtain rfl : before = [] := List.length_eq_zero_iff.mp (Nat.le_zero.mp (h.first [] rest hrest.symm))
        rw [firstOccurrence_nil_iff.mp h]
    · rw [if_neg fun hpre => hhere (List.isPrefixOf_iff_prefix.mp hpre), ih]
      constructor
      · rintro ⟨before, rest, hfound, h⟩
        exact ⟨c :: before, rest, hfound, (firstOccurrence_cons_iff hhere).mpr ⟨before, rfl, h⟩⟩
      · rintro ⟨before, rest, hfound, h⟩
        obtain ⟨before', -, h'⟩ := (firstOccurrence_cons_iff hhere).mp h
        exact ⟨before', rest, hfound, h'⟩

/-! ## First occurrences in a longer text -/

section
variable {text tail needle before rest : List Char}

private theorem prefix_of_append {a : List Char} (h : a <+: text ++ tail)
    (hlen : a.length ≤ text.length) : a <+: text :=
  List.prefix_of_prefix_length_le h (List.prefix_append text tail) hlen

/-- What follows a text does not come before its first occurrence. -/
theorem FirstOccurrence.append_right (h : FirstOccurrence text needle before rest) :
    FirstOccurrence (text ++ tail) needle before (rest ++ tail) := by
  refine ⟨by rw [h.eq, List.append_assoc], ?_⟩
  intro before' rest' heq
  by_contra hlt
  -- an earlier occurrence would end within the text
  have hlen := congrArg List.length h.eq
  simp only [List.length_append] at hlen
  obtain ⟨rest'', hrest⟩ : before' ++ needle <+: text := by
    apply prefix_of_append ⟨rest', heq.symm⟩
    rw [List.length_append]
    omega
  exact hlt (h.first before' rest'' hrest.symm)

/-- The first occurrence in a longer text that ends within its beginning is the first one
there. -/
theorem FirstOccurrence.of_append (h : FirstOccurrence (text ++ tail) needle before rest)
    (hlen : before.length + needle.length ≤ text.length) :
    ∃ rest', FirstOccurrence text needle before rest' ∧ rest = rest' ++ tail := by
  obtain ⟨rest', hrest⟩ : before ++ needle <+: text := by
    apply prefix_of_append ⟨rest, h.eq.symm⟩
    rwa [List.length_append]
  refine ⟨rest', ⟨hrest.symm, fun before' rest'' heq => h.first before' (rest'' ++ tail) ?_⟩, ?_⟩
  · rw [heq, List.append_assoc]
  · have hwhole := h.eq
    rw [← hrest, List.append_assoc _ rest' tail, List.append_right_inj] at hwhole
    exact hwhole.symm

/-- The first occurrence with `value` behind it lies in the beginning of a text if and only
if it lies in the text and ends early enough. -/
theorem firstOccurrence_append_iff (text tail needle before value : List Char) :
    (∃ rest, FirstOccurrence text needle before (value ++ rest)) ↔
      (∃ rest, FirstOccurrence (text ++ tail) needle before (value ++ rest)) ∧
        before.length + needle.length + value.length ≤ text.length := by
  constructor
  · rintro ⟨rest, h⟩
    refine ⟨⟨rest ++ tail, ?_⟩, ?_⟩
    · rw [← List.append_assoc]
      exact h.append_right
    · have hlen := congrArg List.length h.eq
      simp only [List.length_append] at hlen
      omega
  · rintro ⟨⟨rest, h⟩, hlen⟩
    obtain ⟨rest', hocc, heq⟩ := h.of_append (by omega)
    have hlong := congrArg List.length hocc.eq
    simp only [List.length_append] at hlong
    obtain ⟨rest'', rfl⟩ : value <+: rest' := prefix_of_append ⟨rest, heq⟩ (by omega)
    exact ⟨rest'', hocc⟩

end
end CString
