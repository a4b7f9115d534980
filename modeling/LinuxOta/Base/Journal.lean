-- SUMMARY: Properties of every entry of a journal in view of the entries before it.
import Mathlib.Data.List.Basic

/-! # Journals -/

namespace Journal

variable {α : Type*} {P : List α → α → Prop}

/-- `P` holds of every entry, given those before it. -/
def Each (P : List α → α → Prop) (j : List α) : Prop :=
  ∀ pre e post, j = pre ++ e :: post → P pre e

theorem each_nil : Each P [] := by
  intro pre e post h
  simp at h

theorem each_append_singleton {j : List α} {e : α} : Each P (j ++ [e]) ↔ Each P j ∧ P j e := by
  constructor
  · intro h
    refine ⟨fun pre e' post hj => ?_, h j e [] rfl⟩
    exact h pre e' (post ++ [e]) (by rw [hj]; simp)
  · rintro ⟨hj, he⟩ pre e' post heq
    rcases List.eq_nil_or_concat post with rfl | ⟨post', e'', rfl⟩
    · obtain ⟨rfl, hlast⟩ := List.append_inj' heq rfl
      obtain rfl : e = e' := by simpa using hlast
      exact he
    · rw [List.concat_eq_append, ← List.cons_append, ← List.append_assoc] at heq
      exact hj pre e' post' (List.append_inj' heq rfl).1

end Journal
