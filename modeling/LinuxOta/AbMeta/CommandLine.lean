-- SUMMARY: The running slot as the arguments of the kernel command line give it, and when the program reads it so.
import LinuxOta.AbMeta.RunningSlot

namespace LinuxOta

/-! # The kernel command line

The program looks for the first mention of the key in the first 511 bytes of
`/proc/cmdline`. The arguments of the line are what stands between spaces. -/

/-- The file opens, and the read is as long as buffer and file allow. -/
structure CmdlineAnswer.FaultFree (answer : CmdlineAnswer) : Prop where
  fopen : answer.fopen = true
  fread : 511 ≤ answer.fread

namespace AbMeta

def arguments (line : List Char) : List (List Char) := line.splitOn ' '

/-- The argument that gives slot `s`. -/
def slotArgument (s : Slot) : List Char := slotSuffixKey ++ ['_', s.suffix]

/-- One argument of the line gives a slot, and it gives `s`. -/
structure GivenOnce (line : List Char) (s : Slot) : Prop where
  once : (arguments line).countP (fun arg => arg = slotArgument .a ∨ arg = slotArgument .b) = 1
  mem : slotArgument s ∈ arguments line

/-- `ret` is the slot that the arguments of the line give. -/
structure GivenByArguments (line : List Char) (ret : Option Slot) : Prop where
  given : ∀ s, GivenOnce line s → ret = some s
  notGiven : (∀ arg ∈ arguments line, ¬ slotSuffixKey <+: arg) → ret = none

/-- The first mention of the key, inside whatever argument, is followed by the suffix of slot
`s`, and all of it stands in the first 511 bytes. -/
def MentionedFirst (line : List Char) (s : Slot) : Prop :=
  ∃ before, (∃ rest, CString.FirstOccurrence line slotSuffixKey before ('_' :: s.suffix :: rest)) ∧
    before.length + (slotArgument s).length ≤ 511

section
variable {line eol : List Char}

/-- A line end takes no part in a mention. -/
theorem mention_append_eol {before : List Char} {s : Slot} (heol : eol = [] ∨ eol = ['\n']) :
    (∃ rest, CString.FirstOccurrence (line ++ eol) slotSuffixKey before (['_', s.suffix] ++ rest)) ↔
      ∃ rest, CString.FirstOccurrence line slotSuffixKey before (['_', s.suffix] ++ rest) := by
  rw [CString.firstOccurrence_append_iff line eol, iff_self_and]
  rintro ⟨rest, h⟩
  have hlen := congrArg List.length h.eq
  simp only [List.length_append] at hlen
  rcases heol with rfl | rfl
  · simp only [List.length_nil] at hlen
    omega
  · by_contra hlong
    simp only [List.length_cons, List.length_nil] at hlen hlong
    obtain rfl : rest = [] := List.length_eq_zero_iff.mp (by omega)
    have hlast : line ++ ['\n'] = before ++ slotSuffixKey ++ ['_'] ++ [s.suffix] := by simp [h.eq]
    have hsuffix := (List.append_inj' hlast rfl).2
    cases s <;> exact absurd hsuffix (by decide)

variable {m : Machine} {answer : CmdlineAnswer}

/-- What a read without faults takes for the running slot. -/
theorem getRunningSlot_eq_some_iff_mentioned (hread : answer.FaultFree)
    (hcmd : m.cmdline = line ++ eol) (heol : eol = [] ∨ eol = ['\n']) (hnul : '\x00' ∉ line)
    {s : Slot} :
    getRunningSlot answer m = some s ↔ m.cmdline = [] ∧ s = .a ∨ MentionedFirst line s := by
  have hbuf : cmdlineBuffer m.cmdline answer = m.cmdline.take 511 := by
    rw [cmdlineBuffer, Nat.min_eq_right hread.fread]
  have hzero : '\x00' ∉ m.cmdline.take 511 := by
    intro hmem
    have hmem' := List.mem_of_mem_take hmem
    rw [hcmd, List.mem_append] at hmem'
    rcases hmem' with h | h
    · exact hnul h
    · rcases heol with rfl | rfl <;> simp at h
  have hnames : Names (m.cmdline.take 511) s ↔ MentionedFirst line s := by
    refine exists_congr fun before => ?_
    have hshort := CString.firstOccurrence_append_iff (m.cmdline.take 511) (m.cmdline.drop 511)
      slotSuffixKey before ['_', s.suffix]
    rw [List.take_append_drop, hcmd, mention_append_eol heol] at hshort
    rw [hcmd]
    refine hshort.trans (and_congr_right ?_)
    rintro ⟨rest, h⟩
    have hlen := congrArg List.length h.eq
    simp only [slotArgument, List.length_append, List.length_take] at hlen ⊢
    omega
  rw [getRunningSlot_eq_some_iff, hbuf, CString.ofBuffer_eq_self hzero, hnames]
  simp [hread.fopen]

/-- The program reads the running slot off the arguments if and only if the argument that
gives it is also the first mention of the key in the text and ends within the first 511
bytes, and a text without such an argument mentions no slot there and is not empty. -/
theorem getRunningSlot_given_iff (hread : answer.FaultFree)
    (hcmd : m.cmdline = line ++ eol) (heol : eol = [] ∨ eol = ['\n']) (hnul : '\x00' ∉ line) :
    GivenByArguments line (getRunningSlot answer m) ↔
      (∀ s, GivenOnce line s → MentionedFirst line s) ∧
      ((∀ arg ∈ arguments line, ¬ slotSuffixKey <+: arg) →
        m.cmdline ≠ [] ∧ ∀ s, ¬ MentionedFirst line s) := by
  have hsome : ∀ s, getRunningSlot answer m = some s ↔ m.cmdline = [] ∧ s = .a ∨ MentionedFirst line s :=
    fun s => getRunningSlot_eq_some_iff_mentioned hread hcmd heol hnul
  constructor
  · intro h
    refine ⟨fun s hs => ?_, fun hnone => ⟨fun hnil => ?_, fun s hs => ?_⟩⟩
    · rcases (hsome s).mp (h.given s hs) with ⟨hnil, rfl⟩ | hfirst
      · -- an empty line gives no slot
        obtain ⟨rfl, -⟩ := List.append_eq_nil_iff.mp (hcmd.symm.trans hnil)
        exact absurd hs.mem (by decide)
      · exact hfirst
    · have hret := (hsome .a).mpr (.inl ⟨hnil, rfl⟩)
      rw [h.notGiven hnone] at hret
      exact absurd hret (by simp)
    · have hret := (hsome s).mpr (.inr hs)
      rw [h.notGiven hnone] at hret
      exact absurd hret (by simp)
  · rintro ⟨hgiven, hnot⟩
    refine ⟨fun s hs => (hsome s).mpr (.inr (hgiven s hs)), fun hnone => ?_⟩
    cases hret : getRunningSlot answer m with
    | none => rfl
    | some s =>
      obtain ⟨hne, hfirst⟩ := hnot hnone
      rcases (hsome s).mp hret with ⟨hnil, -⟩ | h
      · exact absurd hnil hne
      · exact absurd h (hfirst s)

end

/-- A machine that was started with the given command line. -/
def startedWith (line : List Char) : Machine :=
  ⟨fun _ => none, fun _ _ => 0, line ++ ['\n'], []⟩

theorem getRunningSlot_given_quiet :
    GivenByArguments "quiet android_slotsufix=_b".toList
        (getRunningSlot ⟨true, 511⟩ (startedWith "quiet android_slotsufix=_b".toList)) ↔
      (∀ s, GivenOnce "quiet android_slotsufix=_b".toList s →
        MentionedFirst "quiet android_slotsufix=_b".toList s) ∧
      ((∀ arg ∈ arguments "quiet android_slotsufix=_b".toList, ¬ slotSuffixKey <+: arg) →
        (startedWith "quiet android_slotsufix=_b".toList).cmdline ≠ [] ∧
          ∀ s, ¬ MentionedFirst "quiet android_slotsufix=_b".toList s) :=
  getRunningSlot_given_iff ⟨rfl, Nat.le_refl _⟩ rfl (.inr rfl) (by decide)

/-- The key inside another argument goes before the argument that gives the slot. -/
theorem getRunningSlot_not_given :
    ¬ GivenByArguments "x.android_slotsufix=_b android_slotsufix=_a".toList
      (getRunningSlot ⟨true, 511⟩ (startedWith "x.android_slotsufix=_b android_slotsufix=_a".toList)) := by
  intro h
  have hret := h.given .a ⟨by decide, by decide⟩
  exact absurd hret (by decide)

end AbMeta
end LinuxOta
