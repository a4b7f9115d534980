-- SUMMARY: The running slot, read from the kernel command line.
import LinuxOta.AbMeta.Record
import LinuxOta.Base.CString
import LinuxOta.System.Machine

namespace LinuxOta

/-- What opening and reading `/proc/cmdline` answers. -/
structure CmdlineAnswer where
  fopen : Bool
  /-- The length `fread` returns, as far as buffer and file allow. -/
  fread : Nat
  deriving DecidableEq, Repr

namespace AbMeta

/-- `AB_META_SLOT_SUFFIX`. -/
def slotSuffixKey : List Char := "android_slotsufix=".toList

/-- What a read leaves in the 512-byte buffer, less the zeros after it. -/
def cmdlineBuffer (cmdline : List Char) (answer : CmdlineAnswer) : List Char :=
  cmdline.take (min answer.fread 511)

/-- The part of `rk_ab_meta_get_running_slot` that looks into the buffer. -/
def slotNamedIn (buf : List Char) : Option Slot :=
  match CString.strstr (CString.ofBuffer buf) slotSuffixKey with
  | none => none
  | some slotPos =>
    let slotPos := slotPos.drop slotSuffixKey.length
    if CString.startsWith slotPos "_a".toList then some .a
    else if CString.startsWith slotPos "_b".toList then some .b
    else none

/-- `rk_ab_meta_get_running_slot`; -1 is `none`. -/
def getRunningSlot (answer : CmdlineAnswer) (m : Machine) : Option Slot :=
  if !answer.fopen then
    none
  else
    let buf := cmdlineBuffer m.cmdline answer
    -- "Failed to read": the function returns 0 here, which is slot `a`
    if buf.length = 0 then some .a
    else slotNamedIn buf

/-! ## What is recognised -/

/-- The first mention of the slot suffix in a text names slot `s`. -/
def Names (text : List Char) (s : Slot) : Prop :=
  ∃ before rest, CString.FirstOccurrence text slotSuffixKey before ('_' :: s.suffix :: rest)

theorem slotNamedIn_eq_some_iff {buf : List Char} {s : Slot} :
    slotNamedIn buf = some s ↔ Names (CString.ofBuffer buf) s := by
  have hstarts : ∀ (rest : List Char) (t : Slot),
      CString.startsWith rest ['_', t.suffix] = true ↔ ∃ rest', rest = '_' :: t.suffix :: rest' := by
    intro rest t
    rw [CString.startsWith, List.isPrefixOf_iff_prefix]
    constructor
    · rintro ⟨rest', rfl⟩
      exact ⟨rest', rfl⟩
    · rintro ⟨rest', rfl⟩
      exact ⟨rest', rfl⟩
  cases hfind : CString.strstr (CString.ofBuffer buf) slotSuffixKey with
  | none =>
    simp only [slotNamedIn, hfind, reduceCtorEq, false_iff]
    rintro ⟨before, rest, hocc⟩
    have hfound := CString.strstr_eq_some_iff.mpr ⟨before, _, rfl, hocc⟩
    exact absurd (hfind.symm.trans hfound) (by simp)
  | some found =>
    obtain ⟨before, rest, rfl, hocc⟩ := CString.strstr_eq_some_iff.mp hfind
    have hunique : Names (CString.ofBuffer buf) s ↔
        CString.startsWith rest ['_', s.suffix] = true := by
      rw [hstarts]
      constructor
      · rintro ⟨before', rest', hocc'⟩
        have hfound := CString.strstr_eq_some_iff.mpr ⟨before', _, rfl, hocc'⟩
        exact ⟨rest', List.append_cancel_left (Option.some.inj (hfind.symm.trans hfound))⟩
      · rintro ⟨rest', rfl⟩
        exact ⟨before, rest', hocc⟩
    have ha : "_a".toList = ['_', Slot.a.suffix] := rfl
    have hb : "_b".toList = ['_', Slot.b.suffix] := rfl
    rw [hunique]
    simp only [slotNamedIn, hfind, List.drop_left, ha, hb]
    have hdisj : CString.startsWith rest ['_', Slot.a.suffix] = true →
        ¬ CString.startsWith rest ['_', Slot.b.suffix] = true := by
      rw [hstarts, hstarts]
      rintro ⟨r, rfl⟩ ⟨r', h⟩
      exact absurd (List.cons.inj (List.cons.inj h).2).1 (by decide)
    cases s with
    | a => by_cases h : CString.startsWith rest ['_', Slot.a.suffix] = true <;> simp [h]
    | b =>
      by_cases h : CString.startsWith rest ['_', Slot.a.suffix] = true
      · simp [h, hdisj h]
      · simp [h]

/-- A call takes slot `s` for the running one when the text it read names `s`, and takes
slot `a` when it read nothing at all. -/
theorem getRunningSlot_eq_some_iff {answer : CmdlineAnswer} {m : Machine} {s : Slot} :
    getRunningSlot answer m = some s ↔
      answer.fopen = true ∧
        (cmdlineBuffer m.cmdline answer = [] ∧ s = .a ∨
          Names (CString.ofBuffer (cmdlineBuffer m.cmdline answer)) s) := by
  have hempty : ¬ Names (CString.ofBuffer []) s := by
    rintro ⟨before, rest, heq, -⟩
    simp [CString.ofBuffer] at heq
  cases hopen : answer.fopen with
  | false => simp [getRunningSlot, hopen]
  | true =>
    simp only [getRunningSlot, hopen, Bool.not_true, Bool.false_eq_true, ↓reduceIte, true_and,
      List.length_eq_zero_iff]
    by_cases hnil : cmdlineBuffer m.cmdline answer = []
    · simp [hnil, hempty, eq_comm]
    · simp [hnil, slotNamedIn_eq_some_iff]

end AbMeta
end LinuxOta
